import ScriptHost.Proofs.ArrivalOrder
import ScriptHost.Proofs.LeaseDelivery

/-!
What becomes of the callers that wait for a lease. A caller is bound to the frame it asked: as
long as that frame is on the stack it has a place in the line of the frame, or the invoker is
on its way to it. Once the frame is popped nobody is left in its line, and who waited there and
follows asks again on the frame that is innermost when it is polled. A lease that is given back
goes to the head of the line; only without a line does it go into the slot.
-/

namespace ScriptHost.Nest

/-- Whoever waits on a frame has a place in its queue until the frame is popped, and no queue
parks anybody beside an item. -/
structure Attended (n : Nest) (waiting : Multiset (Nat × Nat)) : Prop where
  orderly : ∀ i, (n.frame i).queue.Orderly
  placed : ∀ p ∈ waiting, (n.frame p.1).isPopped = false → p.2 ∈ (n.frame p.1).queue.tickets

section Operations

variable {n : Nest} {live waiting : Multiset (Nat × Nat)} {i : Nat}

theorem setQueue_self (n : Nest) (i : Nat) : n.setQueue i (n.frame i).queue = n := by
  have hframes : n.frames.modify i (fun f => { f with queue := (n.frame i).queue }) = n.frames := by
    apply List.ext_getElem?
    intro j
    rw [List.getElem?_modify]
    by_cases hij : i = j
    · subst hij
      cases hframe : n.frames[i]? <;> simp [frame, hframe]
    · simp [hij]
  rw [setQueue, update, hframes]

theorem Attended.of_queues {n' : Nest} (h : n.Attended waiting)
    (hqueue : ∀ j, (n'.frame j).queue = (n.frame j).queue) : n'.Attended waiting where
  orderly j := hqueue j ▸ h.orderly j
  placed p hp hopen := by
    rw [Frame.isPopped, hqueue] at hopen
    rw [hqueue]
    exact h.placed p hp hopen

/-- Changes the queue of one frame, and with it who waits on that frame. -/
theorem Attended.setQueue {waiting' : Multiset (Nat × Nat)} {q : WaitQueue Nat}
    (h : n.Attended waiting) (hi : i < n.frames.length) (horderly : q.Orderly)
    (hother : ∀ p ∈ waiting', p.1 ≠ i → p ∈ waiting)
    (hself : ∀ t, (i, t) ∈ waiting' → q.closed = false → t ∈ q.tickets) :
    (n.setQueue i q).Attended waiting' := by
  have hqueue : ((n.setQueue i q).frame i).queue = q := by
    rw [Nest.setQueue, frame_update_self n i _ hi]
  have hframe : ∀ j ≠ i, (n.setQueue i q).frame j = n.frame j := fun j hj =>
    frame_update_ne n i j _ hj
  refine ⟨fun j => ?_, ?_⟩
  · by_cases hji : j = i
    · rw [hji, hqueue]
      exact horderly
    · rw [hframe j hji]
      exact h.orderly j
  · rintro ⟨j, t⟩ hp hopen
    by_cases hji : j = i
    · subst hji
      rw [Frame.isPopped, hqueue] at hopen
      rw [hqueue]
      exact hself t hp hopen
    · rw [hframe j hji] at hopen ⊢
      exact h.placed (j, t) (hother _ hp hji) hopen

/-- The queue of one frame serves callers, and those who wait on it keep their places. -/
theorem Attended.of_served {q : WaitQueue Nat} (h : n.Attended waiting)
    (hi : i < n.frames.length) (horderly : q.Orderly)
    (hserved : (n.frame i).queue.Served q)
    (htickets : ∀ t, (i, t) ∈ waiting → t ∈ (n.frame i).queue.tickets → t ∈ q.tickets) :
    (n.setQueue i q).Attended waiting := by
  refine h.setQueue hi horderly (fun _ hp _ => hp) fun t ht hopen => htickets t ht ?_
  exact h.placed (i, t) ht (hserved.closed.symm.trans hopen)

theorem Attended.tryLease {h : Handle} {n' : Nest} {reading : Bool} (ha : n.Attended waiting)
    (ht : n.tryLease i reading = some (h, n')) : n'.Attended waiting := by
  have hi := lt_of_tryLease ht
  obtain ⟨⟨a, q⟩, htake, heq⟩ := Option.map_eq_some_iff.mp ht
  have hset : (n.setQueue i q).Attended waiting :=
    ha.of_served hi ((ha.orderly i).tryTake htake) (WaitQueue.served_tryTake htake).2
      fun t _ hmem => (WaitQueue.tryTake_spec htake).2.1 ▸ hmem
  simp only [lease, Prod.mk.injEq] at heq
  obtain ⟨rfl, rfl⟩ := heq
  split
  · exact hset.of_queues (queue_setReading _ i · true)
  · exact hset

theorem Attended.ask (h : n.Attended waiting) (hi : i < n.frames.length) (cancelled : Bool) :
    (n.ask i cancelled).2.Attended ((n.ask i cancelled).1.place i + waiting) := by
  have hspec := WaitQueue.take_spec (n.frame i).queue cancelled
  have hserved := (WaitQueue.served_take (n.frame i).queue cancelled).1
  have horderly := (h.orderly i).take cancelled
  unfold Nest.ask
  generalize (n.frame i).queue.take cancelled = answer at hspec hserved horderly
  rcases answer with ⟨a | e | t, q⟩
  · simp only [Taking.place, zero_add]
    exact h.of_served hi horderly hserved fun t _ hmem => hspec.2.1 ▸ hmem
  · simp only [Taking.place, zero_add]
    exact h.of_served hi horderly hserved fun t _ hmem => (show q = _ from hspec) ▸ hmem
  · obtain ⟨-, -, htickets, -⟩ := hspec
    simp only [Taking.place, Multiset.singleton_add]
    refine h.setQueue hi horderly ?_ ?_
    · rintro p hp hne
      exact (Multiset.mem_cons.mp hp).resolve_left fun heq => hne (by rw [heq])
    · intro t' ht' hopen
      rw [htickets, Multiset.mem_cons]
      refine (Multiset.mem_cons.mp ht').imp (fun heq => (Prod.mk.inj heq).2) fun hmem => ?_
      exact h.placed (i, t') hmem (hserved.closed.symm.trans hopen)

/-- One who gives its place up leaves those of the others alone. -/
theorem Attended.served {ticket : Nat} {q : WaitQueue Nat}
    (h : n.Attended ((i, ticket) ::ₘ waiting)) (ha : n.Accounted live ((i, ticket) ::ₘ waiting))
    (horderly : q.Orderly) (hserved : (n.frame i).queue.Served q)
    (htickets : q.tickets = (n.frame i).queue.tickets.erase ticket) :
    (n.setQueue i q).Attended waiting := by
  have hi : i < n.frames.length := ha.waiting_made (i, ticket) (Multiset.mem_cons_self _ _)
  have hnodup := ha.waiting_nodup i hi
  rw [onFrame_cons_self, Multiset.nodup_cons] at hnodup
  have hothers : n.Attended waiting :=
    ⟨h.orderly, fun p hp => h.placed p (Multiset.mem_cons_of_mem hp)⟩
  refine hothers.of_served hi horderly hserved fun t ht hmem => ?_
  have hne : t ≠ ticket := fun heq => hnodup.1 (heq ▸ mem_onFrame.mpr ht)
  rw [htickets]
  exact (Multiset.mem_erase_of_ne hne).mpr hmem

theorem Attended.look {ticket : Nat} (h : n.Attended ((i, ticket) ::ₘ waiting))
    (ha : n.Accounted live ((i, ticket) ::ₘ waiting)) (cancelled : Bool) :
    (n.look i ticket cancelled).2.Attended ((n.look i ticket cancelled).1.place i + waiting) := by
  have hi : i < n.frames.length := ha.waiting_made (i, ticket) (Multiset.mem_cons_self _ _)
  have hspec := WaitQueue.look_spec ticket (ha.tickets_nodup hi) cancelled
  have hserved := (WaitQueue.served_look (n.frame i).queue ticket cancelled).1
  have horderly := (h.orderly i).look ticket cancelled
  unfold Nest.look
  generalize (n.frame i).queue.look ticket cancelled = answer at hspec hserved horderly
  rcases answer with ⟨a | e | t, q⟩
  · simp only [Taking.place, zero_add]
    exact h.served ha horderly hserved hspec.2.1
  · simp only [Taking.place, zero_add]
    exact h.served ha horderly hserved hspec.2.1
  · obtain ⟨rfl, rfl⟩ := hspec
    simp only [Taking.place, Multiset.singleton_add]
    exact h.of_served hi horderly hserved fun _ _ hmem => hmem

theorem Attended.withdraw {ticket : Nat} (h : n.Attended ((i, ticket) ::ₘ waiting))
    (ha : n.Accounted live ((i, ticket) ::ₘ waiting)) :
    (n.withdraw i ticket).1.Attended waiting := by
  have hi : i < n.frames.length := ha.waiting_made (i, ticket) (Multiset.mem_cons_self _ _)
  exact h.served ha ((h.orderly i).withdraw ticket) (WaitQueue.served_withdraw _ ticket)
    (WaitQueue.withdraw_books ticket (ha.tickets_nodup hi)).2.1

theorem Attended.release {handle : Handle} (h : n.Attended waiting)
    (hi : handle.frame < n.frames.length) : (n.release handle).1.Attended waiting := by
  have hend : (n.endReading handle).Attended waiting := h.of_queues (queue_endReading n handle)
  unfold Nest.release
  dsimp only
  split
  · next q hoffer =>
    exact hend.of_served (by simpa using hi) ((hend.orderly _).offer hoffer)
      (WaitQueue.served_offer hoffer) fun t _ hmem => (WaitQueue.offer_spec hoffer).2.1 ▸ hmem
  · exact hend

/-- A frame that is popped owes no place to anybody. -/
theorem Attended.pop {n' : Nest} (h : n.Attended waiting) (ha : n.Accounted live waiting)
    (hpop : n.pop = .ok (i, n')) : n'.Attended waiting := by
  obtain ⟨habove, heq⟩ := pop_spec hpop
  have hi : i < n.frames.length := ha.above_made i (by simp [habove])
  have hsame : (⟨n.frames, n'.above⟩ : Nest).Attended waiting := h.of_queues fun _ => rfl
  rw [heq]
  exact hsame.setQueue hi (.close _) (fun _ hp _ => hp) fun _ _ hopen => by cases hopen

theorem Attended.push (h : n.Attended waiting) (ha : n.Accounted live waiting)
    (kind : FrameKind) : (n.push kind).2.Attended waiting := by
  refine ⟨fun j => ?_, fun p hp => ?_⟩
  · rcases Nat.lt_trichotomy j n.frames.length with hlt | rfl | hgt
    · rw [frame_push_of_lt kind hlt]
      exact h.orderly j
    · rw [queue_push_new]
      exact ⟨fun _ => rfl, fun _ => rfl⟩
    · rw [frame_of_not_made (by rw [length_frames_push]; exact hgt)]
      exact ⟨fun _ => rfl, fun _ => rfl⟩
  · rw [frame_push_of_lt kind (ha.waiting_made p hp)]
    exact h.placed p hp

end Operations

namespace Callers

def Attended (c : Callers) : Prop :=
  c.nest.Attended c.waiting

section Moves

variable {c : Callers} {running : List Handle} {name : String}

theorem frame_of_held_made (h : c.Accounted running) :
    ∀ p ∈ c.held, p.2.frame < c.nest.frames.length := by
  intro p hp
  refine h.nest.live_made p.2.lease (Multiset.mem_coe.mpr ?_)
  exact List.mem_map_of_mem (List.mem_append_left _ (List.mem_map_of_mem hp))

theorem releasing_attended {handle : Handle} {a : Answer} (h : c.Attended)
    (hmade : handle.frame < c.nest.frames.length) : (c.releasing handle a).2.Attended := by
  have hrelease := Nest.Attended.release h hmade
  unfold releasing
  rcases hr : c.nest.release handle with ⟨nest, _ | p⟩ <;> rw [hr] at hrelease <;> exact hrelease

theorem hold_attended {handle : Handle} (h : c.Attended)
    (hmade : ∀ p ∈ c.held, p.2.frame < c.nest.frames.length) :
    (c.hold name handle).2.Attended := by
  unfold hold
  cases hold : c.held.lookup name with
  | none => exact h
  | some old =>
    obtain ⟨key, hmem⟩ : ∃ key, (key, old) ∈ c.held := by
      obtain ⟨before, after, heq, -⟩ := List.lookup_eq_some_iff.mp hold
      exact ⟨name, by simp [heq]⟩
    exact releasing_attended (c := { c with held := _ }) h (hmade _ hmem)

theorem settle_attended {call : Call} {taking : Taking Nat} {nest : Nest}
    (h : nest.Attended (taking.place call.frame + (c.forget name).waiting))
    (hmade : ∀ p ∈ c.held, p.2.frame < nest.frames.length) :
    (c.settle name call (taking, nest)).2.Attended := by
  cases taking with
  | item invoker =>
    simp only [Taking.place, zero_add] at h
    have hlease : (nest.lease call.frame invoker call.forReading).2.Attended
        (c.forget name).waiting := by
      unfold lease
      split
      · exact h.of_queues (queue_setReading _ _ · true)
      · exact h
    have hlength := (alike_lease nest call.frame invoker call.forReading).length
    exact hold_attended (c := Callers.forget
      { c with nest := (nest.lease call.frame invoker call.forReading).2 } name)
      hlease fun p hp => (hmade p hp).trans_eq hlength.symm
  | failed e =>
    simp only [Taking.place, zero_add] at h
    exact h
  | waiting ticket =>
    simp only [Taking.place, Multiset.singleton_add] at h
    refine ⟨h.orderly, fun p hp => h.placed p ?_⟩
    simpa [settle, Callers.waiting, forget, or_comm] using hp

theorem ask_attended {call : Call} (h : c.Attended) (hc : c.Accounted running)
    (hfree : c.pending.lookup name = none) (hframe : call.frame < c.nest.frames.length) :
    (c.ask name call).2.Attended := by
  have hask := Nest.Attended.ask h hframe (c.isCancelled call.token)
  rw [← waiting_forget_none hfree] at hask
  have hlength := (alike_ask c.nest call.frame (c.isCancelled call.token)).length
  exact settle_attended hask fun p hp => (frame_of_held_made hc p hp).trans_eq hlength.symm

theorem pollCall_attended {call : Call} (h : c.Attended) (hc : c.Accounted running)
    (hcall : c.pending.lookup name = some call) : (c.pollCall name call).2.Attended := by
  have hnest := hc.nest
  have hplaced : c.nest.Attended c.waiting := h
  rw [waiting_forget hc hcall] at hnest hplaced
  have hlook := hplaced.look hnest (c.isCancelled call.token)
  have hlength := (alike_look c.nest call.frame call.ticket (c.isCancelled call.token)).length
  have hsettle : (c.settle name call
      (c.nest.look call.frame call.ticket (c.isCancelled call.token))).2.Attended :=
    settle_attended hlook fun p hp => (frame_of_held_made hc p hp).trans_eq hlength.symm
  unfold pollCall
  split
  · next what nest hlooked =>
    rw [hlooked] at hlook hsettle hlength
    split
    · -- its old place in the line is gone before it asks again
      simp only [Taking.place, zero_add] at hlook
      have htop : nest.top < nest.frames.length := by
        have halike := alike_look c.nest call.frame call.ticket (c.isCancelled call.token)
        rw [hlooked] at halike
        rw [halike.top, halike.length]
        exact top_lt hc.nest
      have hasked := (alike_ask nest nest.top (c.isCancelled call.token)).length
      exact settle_attended (c := { c with nest }) (hlook.ask htop _) fun p hp =>
        (frame_of_held_made hc p hp).trans_eq (hasked.trans hlength).symm
    · exact hsettle
  · exact hsettle

theorem drop_attended (h : c.Attended) (hc : c.Accounted running) (name : String) :
    (c.drop name).2.Attended := by
  unfold drop
  cases hcall : c.pending.lookup name with
  | none => exact h
  | some call =>
    have hnest := hc.nest
    have hplaced : c.nest.Attended c.waiting := h
    rw [waiting_forget hc hcall] at hnest hplaced
    have hwithdraw := hplaced.withdraw hnest
    dsimp only
    rcases hw : c.nest.withdraw call.frame call.ticket with ⟨nest, _ | p⟩ <;>
      rw [hw] at hwithdraw <;> exact hwithdraw

theorem start_attended {call : Call} (h : c.Attended) (hc : c.Accounted running)
    (hframe : call.frame < c.nest.frames.length) : (c.start name call).2.Attended := by
  obtain ⟨hdrop, hfree⟩ := drop_sound hc name
  exact ask_attended (drop_attended h hc name) hdrop.1 hfree (by rwa [drop_frames])

theorem popping_attended {r : Except ExecutionError (Nat × Nest)} (h : c.Attended)
    (hr : ∀ id nest, r = .ok (id, nest) → nest.Attended c.waiting) :
    (c.popping r).2.Attended := by
  rcases r with e | ⟨id, nest⟩
  · exact h
  · exact hr id nest rfl

theorem popFrame_attended (h : c.Attended) (hc : c.Accounted running) (frame : Nat) :
    (c.popping (c.nest.popFrame frame)).2.Attended :=
  popping_attended h fun _ _ hr => Nest.Attended.pop h hc.nest (pop_of_popFrame hr).2.2

theorem withHandle_attended {f : Handle → Answer × Callers} (h : c.Attended)
    (hf : ∀ handle, c.held.lookup name = some handle → (f handle).2.Attended) :
    (c.withHandle name f).2.Attended := by
  unfold withHandle
  cases hheld : c.held.lookup name with
  | none => exact h
  | some handle => exact hf handle hheld

theorem step_attended (h : c.Attended) (hc : c.Accounted running) (s : Step)
    (hs : ∀ kind inner panic, s ≠ .runPushed kind inner panic) {x : Answer × Callers}
    (hx : x ∈ c.step s) : x.2.Attended := by
  cases s with
  | push kind =>
    obtain rfl := List.mem_singleton.mp (by simpa [step] using hx)
    exact Nest.Attended.push h hc.nest kind
  | pop =>
    obtain rfl : x = _ := by simpa [step] using hx
    exact popping_attended h fun _ _ hr => Nest.Attended.pop h hc.nest hr
  | popFrame frame =>
    obtain rfl : x = _ := by simpa [step] using hx
    exact popFrame_attended h hc frame
  | get name token forReading =>
    obtain rfl : x = _ := by simpa [step] using hx
    exact start_attended h hc (top_lt hc.nest)
  | take name frame token forReading =>
    rw [step] at hx
    split at hx
    · next hframe =>
      obtain rfl := List.mem_singleton.mp hx
      exact start_attended h hc hframe
    · obtain rfl := List.mem_singleton.mp hx
      exact h
  | tryTake name frame forReading =>
    rw [step] at hx
    split at hx
    · obtain rfl := List.mem_singleton.mp hx
      exact h
    · next handle nest hlease =>
      obtain rfl := List.mem_singleton.mp hx
      refine hold_attended (c := { c with nest }) (Nest.Attended.tryLease h hlease) fun p hp => ?_
      rw [(alike_tryLease hlease).2.length]
      exact frame_of_held_made hc p hp
  | poll name =>
    obtain rfl : x = _ := by simpa [step] using hx
    unfold poll
    cases hcall : c.pending.lookup name with
    | none => exact h
    | some call => exact pollCall_attended h hc hcall
  | drop name =>
    obtain rfl : x = _ := by simpa [step] using hx
    exact drop_attended h hc name
  | cancel token =>
    obtain rfl : x = _ := by simpa [step] using hx
    exact h
  | release name =>
    obtain rfl : x = _ := by simpa [step] using hx
    refine withHandle_attended h fun handle hheld => ?_
    have hmem := mem_of_lookup hc.held_nodup hheld
    exact releasing_attended (c := { c with held := _ }) h (frame_of_held_made hc _ hmem)
  | invoke name command addToHistory =>
    obtain rfl : x = _ := by simpa [step] using hx
    exact withHandle_attended h fun _ _ => h
  | readLine name line =>
    obtain rfl : x = _ := by simpa [step] using hx
    exact withHandle_attended h fun _ _ => h
  | describeFrame frame =>
    obtain rfl : x = _ := by simpa [step] using hx
    exact h
  | describeHandle name =>
    obtain rfl : x = _ := by simpa [step] using hx
    exact withHandle_attended h fun _ _ => h
  | runPushed kind inner panic => exact absurd rfl (hs kind inner panic)

theorem leavePushed_attended {handle : Handle} {a : Answer} (h : c.Attended)
    (hc : c.Accounted (handle :: running)) :
    (c.leavePushed handle.frame handle a).2.Attended := by
  refine releasing_attended (popFrame_attended h hc handle.frame) ?_
  have hmade : handle.frame < c.nest.frames.length :=
    hc.nest.live_made handle.lease (by simp [live, handles])
  rcases hpop : c.nest.popFrame handle.frame with e | ⟨id, nest⟩
  · exact hmade
  · rw [popping, length_of_pop (pop_of_popFrame hpop).2.2]
    exact hmade

theorem attended_of_reachable (h : Reachable c running) : c.Attended := by
  induction h with
  | start engine =>
    refine ⟨fun j => ?_, by simp [waiting]⟩
    cases j <;> exact ⟨fun _ => rfl, fun _ => rfl⟩
  | step s x hc hs hx ih => exact step_attended ih (accounted_of_reachable hc) s hs hx
  | enter kind h nest hc hh ih =>
    exact (Nest.Attended.push ih (accounted_of_reachable hc).nest kind).tryLease hh
  | leave a hc ih => exact leavePushed_attended ih (accounted_of_reachable hc)

end Moves

section Polls

variable {c : Callers} {running : List Handle} {name : String} {call : Call}

/-- A caller that moves on to the innermost frame takes its handle, or fails if it was
cancelled and the handle is out, or is parked there. -/
inductive MovesOn (c : Callers) (name : String) (call : Call) : Prop
  | takes {v : HandleView} (hslot : c.nest.topFrame.isAvailable = true)
      (ha : (c.poll name).1 = .leased v) (hframe : v.frame = c.nest.top)
  | fails (hslot : c.nest.topFrame.isAvailable = false) (htoken : c.isCancelled call.token = true)
      (ha : (c.poll name).1 = .failed .cancelled)
  | parks {ticket : Nat} (hslot : c.nest.topFrame.isAvailable = false)
      (htoken : c.isCancelled call.token = false) (ha : (c.poll name).1 = .pending)
      (hcall : (c.poll name).2.pending.lookup name =
        some { call with frame := c.nest.top, ticket })
      (hparked : ticket ∈ ((c.poll name).2.nest.frame c.nest.top).queue.parked)

theorem waits_of_lookup (h : c.Accounted running) (hcall : c.pending.lookup name = some call) :
    (call.frame, call.ticket) ∈ c.waiting := by
  rw [waiting_forget h hcall]
  exact Multiset.mem_cons_self _ _

theorem top_open (h : c.nest.Standing) : c.nest.topFrame.isPopped = false := by
  have hmem : c.nest.top ∈ c.nest.stack := by
    unfold top stack
    cases c.nest.above <;> simp
  have hiff := h.popped_iff c.nest.top (h.stack_made _ hmem)
  exact Bool.eq_false_iff.mpr fun hpopped => hiff.mp hpopped hmem

/-- On a popped frame nobody is parked, so that a caller with nothing on its way to it asks
again. -/
theorem poll_of_popped (h : c.nest.Standing) (hcall : c.pending.lookup name = some call)
    (hfollows : call.follows = true) (hpopped : (c.nest.frame call.frame).isPopped = true)
    (hnone : c.onItsWay call = none) :
    c.poll name = c.ask name { call with frame := c.nest.top } := by
  have hlook : c.nest.look call.frame call.ticket (c.isCancelled call.token) =
      (.failed .handleQueueClosed, c.nest) := by
    have hlookup : (c.nest.frame call.frame).queue.handed.lookup call.ticket = none := hnone
    have hqueue : (c.nest.frame call.frame).queue.look call.ticket (c.isCancelled call.token) =
        (.failed .handleQueueClosed, (c.nest.frame call.frame).queue) := by
      simp [WaitQueue.look, hlookup, h.none_parked _ hpopped]
    simp only [Nest.look, hqueue, setQueue_self]
  simp only [poll, hcall, pollCall, hlook, ExecutionError.handleQueueClosed, hfollows, hpopped,
    Bool.and_self, if_true]

/-- One who asks an open frame takes the invoker from its slot. -/
theorem ask_takes (name : String) (call : Call) {a : Nat}
    (hopen : (c.nest.frame call.frame).isPopped = false)
    (hslot : (c.nest.frame call.frame).queue.slot = some a) :
    (∃ v, (c.ask name call).1 = .leased v ∧ v.frame = call.frame) ∨
      ∃ p, (c.ask name call).1 = .panicked p := by
  have hask : c.nest.ask call.frame (c.isCancelled call.token) =
      (.item a, c.nest.setQueue call.frame (c.nest.frame call.frame).queue.emptied) := by
    rw [Frame.isPopped] at hopen
    simp [Nest.ask, WaitQueue.take, hopen, hslot]
  rw [ask, hask]
  exact (hold_answer _ name _).imp (fun hleased => ⟨_, hleased, rfl⟩) id

/-- One who asks while the invoker is out fails if it was cancelled. -/
theorem ask_fails (name : String) (call : Call)
    (hopen : (c.nest.frame call.frame).isPopped = false)
    (hslot : (c.nest.frame call.frame).queue.slot = none)
    (htoken : c.isCancelled call.token = true) : (c.ask name call).1 = .failed .cancelled := by
  rw [Frame.isPopped] at hopen
  simp [ask, Nest.ask, WaitQueue.take, hopen, hslot, htoken, settle]

/-- Otherwise it is parked. -/
theorem ask_parks (name : String) (call : Call) (hmade : call.frame < c.nest.frames.length)
    (hopen : (c.nest.frame call.frame).isPopped = false)
    (hslot : (c.nest.frame call.frame).queue.slot = none)
    (htoken : c.isCancelled call.token = false) :
    (c.ask name call).1 = .pending ∧ ∃ ticket,
      (c.ask name call).2.pending.lookup name = some { call with ticket } ∧
      ticket ∈ ((c.ask name call).2.nest.frame call.frame).queue.parked := by
  rw [Frame.isPopped] at hopen
  have htake : (c.nest.frame call.frame).queue.take false =
      (.waiting (c.nest.frame call.frame).queue.nextTicket,
        { (c.nest.frame call.frame).queue with
          parked := (c.nest.frame call.frame).queue.parked ++
            [(c.nest.frame call.frame).queue.nextTicket]
          nextTicket := (c.nest.frame call.frame).queue.nextTicket + 1 }) := by
    simp [WaitQueue.take, hopen, hslot]
  rw [ask, htoken, Nest.ask, htake]
  refine ⟨rfl, (c.nest.frame call.frame).queue.nextTicket, ?_, ?_⟩
  · have hfree := lookup_forget c name
    simp only [settle, forget] at hfree ⊢
    rw [List.lookup_append, hfree, Option.none_or, List.lookup_cons_self]
  · simp only [settle, forget, setQueue]
    rw [frame_update_self _ _ _ hmade]
    simp

theorem movesOn_of_popped (h : Reachable c running) (hcall : c.pending.lookup name = some call)
    (hfollows : call.follows = true) (hpopped : (c.nest.frame call.frame).isPopped = true)
    (hnone : c.onItsWay call = none) : MovesOn c name call := by
  have hc := accounted_of_reachable h
  have hstanding := standing_of_reachable h
  have hpoll := poll_of_popped hstanding hcall hfollows hpopped hnone
  cases hslot : (c.nest.frame c.nest.top).queue.slot with
  | some a =>
    have htop : c.nest.topFrame.isAvailable = true := by
      simp [Nest.topFrame, Frame.isAvailable, hslot]
    have hpanic := (step_sound hc (.poll name) (by simp) _ (List.mem_singleton_self _)).2
    rcases ask_takes name { call with frame := c.nest.top } (top_open hstanding) hslot with
      ⟨v, hv, hframe⟩ | ⟨p, hp⟩
    · exact .takes htop (hpoll ▸ hv) hframe
    · exact absurd (hpoll ▸ hp) (hpanic p)
  | none =>
    have htop : c.nest.topFrame.isAvailable = false := by
      simp [Nest.topFrame, Frame.isAvailable, hslot]
    cases htoken : c.isCancelled call.token with
    | true => exact .fails htop htoken (hpoll ▸ ask_fails name _ (top_open hstanding) hslot htoken)
    | false =>
      obtain ⟨ha, ticket, hlookup, hparked⟩ := ask_parks name
        { call with frame := c.nest.top } (top_lt hc.nest) (top_open hstanding) hslot htoken
      rw [← hpoll] at ha hlookup hparked
      exact .parks htop htoken ha hlookup hparked

/-- One who is parked goes on waiting unless it was cancelled. -/
theorem poll_of_parked (hcall : c.pending.lookup name = some call)
    (hnone : c.onItsWay call = none)
    (hparked : call.ticket ∈ (c.nest.frame call.frame).queue.parked) :
    (c.poll name).1 = if c.isCancelled call.token then .failed .cancelled else .pending := by
  have hlookup : (c.nest.frame call.frame).queue.handed.lookup call.ticket = none := hnone
  cases htoken : c.isCancelled call.token <;>
    simp [poll, hcall, pollCall, Nest.look, WaitQueue.look, hlookup, hparked, htoken, settle]

/-- On a frame of the stack a caller is parked, or the invoker is on its way to it. -/
theorem parked_or_onItsWay (h : Reachable c running)
    (hcall : c.pending.lookup name = some call)
    (hopen : (c.nest.frame call.frame).isPopped = false) :
    call.ticket ∈ (c.nest.frame call.frame).queue.parked ∨ (c.onItsWay call).isSome := by
  have hwaits := waits_of_lookup (accounted_of_reachable h) hcall
  have hplaced := (attended_of_reachable h).placed _ hwaits hopen
  simp only [WaitQueue.tickets, Multiset.mem_coe, List.mem_append] at hplaced
  refine hplaced.imp id fun hhanded => ?_
  rw [← not_not (a := (c.onItsWay call).isSome), Option.not_isSome_iff_eq_none]
  exact fun hnone => WaitQueue.not_handed hnone hhanded

/-- A frame with its invoker in the slot has no caller that waits on it. -/
theorem none_waits_of_available (h : Reachable c running) {i : Nat}
    (hopen : (c.nest.frame i).isPopped = false) (hi : i < c.nest.frames.length)
    (hslot : (c.nest.frame i).isAvailable = true) :
    (c.nest.frame i).queue.parked = [] ∧ ∀ p ∈ c.pending, p.2.frame ≠ i := by
  have hparked := ((attended_of_reachable h).orderly i).slot_free hslot
  have hcard := (accounted_of_reachable h).nest.items_le_one hi
  have hhanded : (c.nest.frame i).queue.handed = [] := by
    obtain ⟨a, ha⟩ := Option.isSome_iff_exists.mp hslot
    simp only [WaitQueue.items, ha, Multiset.coe_card, List.length_append, List.length_map,
      Option.toList_some, List.length_singleton] at hcard
    exact List.length_eq_zero_iff.mp (by omega)
  refine ⟨hparked, fun p hp hframe => ?_⟩
  have hwaits : (p.2.frame, p.2.ticket) ∈ c.waiting :=
    Multiset.mem_coe.mpr (List.mem_map_of_mem hp)
  have hplaced := (attended_of_reachable h).placed _ hwaits (by rw [hframe]; exact hopen)
  rw [hframe] at hplaced
  simp [WaitQueue.tickets, hparked, hhanded] at hplaced

end Polls

/-- A release of `h` serves the caller that is parked longest, and no other, or leaves the
invoker in the slot of a frame on which nobody is parked. -/
inductive Serves (c : Callers) (h : Handle) (n : Nest) : Prop
  | head {name : String} {call : Call} {rest : List Nat}
      (hcall : c.pending.lookup name = some call) (hframe : call.frame = h.frame)
      (hbefore : (c.nest.frame h.frame).queue.parked = call.ticket :: rest)
      (hafter : (n.frame h.frame).queue.parked = rest)
      (hhanded : (n.frame h.frame).queue.handed =
        (c.nest.frame h.frame).queue.handed ++ [(call.ticket, h.invoker)])
      (hslot : (n.frame h.frame).isAvailable = false)
  | nobody (hbefore : (c.nest.frame h.frame).queue.parked = [])
      (hafter : (n.frame h.frame).queue.parked = [])
      (hhanded : (n.frame h.frame).queue.handed = (c.nest.frame h.frame).queue.handed)
      (hslot : (n.frame h.frame).queue.slot = some h.invoker)

section Releases

variable {c : Callers} {running : List Handle} {h : Handle}

theorem lookup_of_parked (hc : c.Accounted running) {i ticket : Nat}
    (hi : i < c.nest.frames.length) (ht : ticket ∈ (c.nest.frame i).queue.parked) :
    ∃ name call, c.pending.lookup name = some call ∧ call.frame = i ∧ call.ticket = ticket := by
  have hticket : ticket ∈ (c.nest.frame i).queue.tickets := by simp [WaitQueue.tickets, ht]
  obtain ⟨⟨name, call⟩, hone⟩ := one_caller hc hi hticket
  have hmem := List.mem_filter.mp (hone ▸ List.mem_singleton_self (name, call))
  have hplace : call.frame = i ∧ call.ticket = ticket := by simpa using hmem.2
  exact ⟨name, call, lookup_of_mem hc.pending_nodup hmem.1, hplace⟩

theorem release_frame (hmade : h.frame < c.nest.frames.length) {q : WaitQueue Nat}
    (hoffer : (c.nest.frame h.frame).queue.offer h.invoker = some q) :
    (c.nest.release h).2 = none ∧ ((c.nest.release h).1.frame h.frame).queue = q ∧
      ∀ j ≠ h.frame, ((c.nest.release h).1.frame j).queue = (c.nest.frame j).queue := by
  simp only [Nest.release, queue_endReading, hoffer, true_and]
  refine ⟨?_, fun j hj => ?_⟩
  · rw [setQueue, frame_update_self _ _ _ (by simpa using hmade)]
  · rw [setQueue, frame_update_ne _ _ j _ hj, queue_endReading]

theorem release_serves (hc : c.Accounted running) (hmem : h ∈ c.handles running) :
    (c.nest.release h).2 = none ∧ Serves c h (c.nest.release h).1 ∧
      ∀ j ≠ h.frame, ((c.nest.release h).1.frame j).queue = (c.nest.frame j).queue := by
  have hlease : h.lease ∈ c.live running := Multiset.mem_coe.mpr (List.mem_map_of_mem hmem)
  have hmade : h.frame < c.nest.frames.length := hc.nest.live_made _ hlease
  have hempty : (c.nest.frame h.frame).queue.items = 0 := by
    have hcard := congrArg Multiset.card (hc.nest.invoker_once h.frame hmade)
    have hout := Multiset.card_pos_iff_exists_mem.mpr ⟨_, mem_onFrame.mpr hlease⟩
    rw [Multiset.card_add, Multiset.card_singleton] at hcard
    exact Multiset.card_eq_zero.mp (by omega)
  obtain ⟨q, hoffer⟩ := WaitQueue.offer_isSome _ h.invoker hempty
  obtain ⟨hpanic, hself, hothers⟩ := release_frame hmade hoffer
  refine ⟨hpanic, ?_, hothers⟩
  rcases WaitQueue.offer_line hoffer with
    ⟨ticket, rest, hbefore, hafter, hhanded, hslot⟩ | ⟨hbefore, hafter, hhanded, hslot⟩
  · have hhead : ticket ∈ (c.nest.frame h.frame).queue.parked := by simp [hbefore]
    obtain ⟨name, call, hcall, hframe, rfl⟩ := lookup_of_parked hc hmade hhead
    refine .head hcall hframe hbefore (hself ▸ hafter) (hself ▸ hhanded) ?_
    have hnone : (c.nest.frame h.frame).queue.slot = none := by
      simp only [WaitQueue.items, Multiset.coe_eq_zero, List.append_eq_nil_iff] at hempty
      simpa using hempty.1
    rw [Frame.isAvailable, hself, hslot, hnone]
    rfl
  · exact .nobody hbefore (hself ▸ hafter) (hself ▸ hhanded) (hself ▸ hslot)

end Releases

/-- In every state that callers reach, whoever waits for the handle of the innermost frame is
parked on its frame while that is on the stack, or the invoker is on its way to it, or its
frame was popped and it moves on as soon as it is polled; it never learns that a queue was
closed. A frame on the stack with its invoker in the slot has nobody that waits on it. And a
handle that is given back serves the first of those who are parked on its frame, or is
available if nobody is. -/
theorem no_waiter_lost {c : Callers} {running : List Handle} (h : Reachable c running) :
    (∀ name call, c.pending.lookup name = some call → call.follows = true →
      (call.frame ∈ c.nest.stack ∧ call.ticket ∈ (c.nest.frame call.frame).queue.parked ∨
        (c.onItsWay call).isSome ∨
        call.frame ∉ c.nest.stack ∧ MovesOn c name call) ∧
      ∀ what, (c.poll name).1 ≠ .failed (.channelClosed what)) ∧
    (∀ i ∈ c.nest.stack, (c.nest.frame i).isAvailable = true →
      (c.nest.frame i).queue.parked = [] ∧ ∀ p ∈ c.pending, p.2.frame ≠ i) ∧
    ∀ handle ∈ c.handles running, ∀ a, (c.releasing handle a).1 = a ∧
      Serves c handle (c.releasing handle a).2.nest ∧
      ∀ j ≠ handle.frame,
        ((c.releasing handle a).2.nest.frame j).queue = (c.nest.frame j).queue := by
  have hc := accounted_of_reachable h
  have hstanding := standing_of_reachable h
  refine ⟨fun name call hcall hfollows => ?_, fun i hi hslot => ?_, fun handle hmem a => ?_⟩
  · have hiff := hstanding.popped_iff call.frame
      (hc.nest.waiting_made _ (waits_of_lookup hc hcall))
    cases hway : c.onItsWay call with
    | some a =>
      have harrives : c.Arrives (.poll name) call.frame :=
        ⟨name, call, rfl, hcall, rfl, by rw [hway]; rfl⟩
      obtain ⟨v, hv, -⟩ := leased_of_arrives hc harrives (List.mem_singleton_self _)
      exact ⟨Or.inr (Or.inl rfl), fun what ha => by cases hv.symm.trans ha⟩
    | none =>
      cases hpopped : (c.nest.frame call.frame).isPopped with
      | true =>
        have hmoves := movesOn_of_popped h hcall hfollows hpopped hway
        refine ⟨Or.inr (Or.inr ⟨hiff.mp hpopped, hmoves⟩), fun what ha => ?_⟩
        cases hmoves with
        | takes _ ha' _ => cases ha'.symm.trans ha
        | fails _ _ ha' => cases ha'.symm.trans ha
        | parks _ _ ha' _ _ => cases ha'.symm.trans ha
      | false =>
        have hparked := (parked_or_onItsWay h hcall hpopped).resolve_right (by simp [hway])
        have hstack : call.frame ∈ c.nest.stack := by
          by_contra hoff
          cases hpopped.symm.trans (hiff.mpr hoff)
        refine ⟨Or.inl ⟨hstack, hparked⟩, fun what ha => ?_⟩
        rw [poll_of_parked hcall hway hparked] at ha
        split at ha <;> cases ha
  · have hmade := hstanding.stack_made i hi
    have hopen : (c.nest.frame i).isPopped = false :=
      Bool.eq_false_iff.mpr fun hpopped => (hstanding.popped_iff i hmade).mp hpopped hi
    exact none_waits_of_available h hopen hmade hslot
  · obtain ⟨hpanic, hserves, hothers⟩ := release_serves hc hmem
    unfold releasing
    rcases hrelease : c.nest.release handle with ⟨nest, panic⟩
    rw [hrelease] at hpanic hserves hothers
    cases hpanic
    exact ⟨rfl, hserves, hothers⟩

/-- A caller is parked on a frame whose handle is out, and the frame is popped: when the caller
is polled it takes the handle of the frame below. -/
theorem no_waiter_lost_popped :
    MovesOn (after [.push .normal, .get "a" none false, .get "b" none false, .pop]) "b"
      { frame := 1, ticket := 0, token := none, forReading := false, follows := true } := by
  obtain ⟨hwaiters, -, -⟩ := no_waiter_lost
    (after_reachable [.push .normal, .get "a" none false, .get "b" none false, .pop])
  rcases (hwaiters "b" _ rfl rfl).1 with ⟨hstack, -⟩ | hway | ⟨-, hmoves⟩
  · exact absurd hstack (by decide)
  · cases hway
  · exact hmoves

end Callers

end ScriptHost.Nest
