import ScriptHost.Proofs.ArrivalOrder
import ScriptHost.Proofs.FrameStack

/-!
The mark of a frame that is read on. A handle that is taken for reading marks its frame, and the
mark goes when its prompt stops reading or the handle is let go of, before the invoker is handed
to anybody else. The mark belongs to the frame and not to the handle, but no two handles of a
frame are ever out, so that it says exactly whether the one that is out reads. Taking an invoker
and marking the frame are two steps here, as are unmarking the frame and giving the invoker back,
so that other callers may move in between.
-/

namespace ScriptHost

/-- A handle that is out, and whether its prompt has stopped reading meanwhile. -/
structure Holding where
  handle : Handle
  stopped : Bool := false

namespace Holding

/-- The handle was taken for reading, and its prompt has not stopped. -/
def Reads (p : Holding) : Prop :=
  p.handle.forReading = true ∧ p.stopped = false

end Holding

/-- One of the handles that are out is of the frame `i` and reads. -/
def ReadsOn (out : Multiset Holding) (i : Nat) : Prop :=
  ∃ p ∈ out, p.handle.frame = i ∧ p.Reads

section ReadsOn

variable {out : Multiset Holding} {p : Holding} {i : Nat}

theorem not_readsOn (h : ∀ q ∈ out, q.handle.frame ≠ i) : ¬ReadsOn out i := by
  rintro ⟨q, hq, hframe, -⟩
  exact h q hq hframe

theorem readsOn_cons_self (h : ∀ q ∈ out, q.handle.frame ≠ p.handle.frame) :
    ReadsOn (p ::ₘ out) p.handle.frame ↔ p.Reads := by
  constructor
  · rintro ⟨q, hq, hframe, hreads⟩
    rcases Multiset.mem_cons.mp hq with rfl | hq
    · exact hreads
    · exact absurd hframe (h q hq)
  · exact fun hreads => ⟨p, Multiset.mem_cons_self p out, rfl, hreads⟩

theorem readsOn_cons_ne (h : i ≠ p.handle.frame) : ReadsOn (p ::ₘ out) i ↔ ReadsOn out i := by
  constructor
  · rintro ⟨q, hq, hframe, hreads⟩
    rcases Multiset.mem_cons.mp hq with rfl | hq
    · exact absurd hframe.symm h
    · exact ⟨q, hq, hframe, hreads⟩
  · rintro ⟨q, hq, hframe, hreads⟩
    exact ⟨q, Multiset.mem_cons_of_mem hq, hframe, hreads⟩

end ReadsOn

namespace Nest

/-- Gives an invoker back: to the caller parked longest on its frame, or into the slot. -/
def giveBack (n : Nest) (frame invoker : Nat) : Nest × Option Panic :=
  match (n.frame frame).queue.offer invoker with
  | some queue => (n.setQueue frame queue, none)
  | none => (n, some .occupiedQueue)

/-- A frame is unmarked before the invoker of its handle is given back. -/
theorem release_eq (n : Nest) (h : Handle) :
    n.release h = (n.endReading h).giveBack h.frame h.invoker := rfl

section Marks

variable {n n' : Nest} {i j : Nat}

@[simp] theorem reading_setQueue (n : Nest) (i : Nat) (q : WaitQueue Nat) (j : Nat) :
    ((n.setQueue i q).frame j).reading = (n.frame j).reading := by
  simp only [setQueue, update, frame, List.getElem?_modify]
  by_cases h : i = j
  · subst h
    cases n.frames[i]? <;> simp
  · simp [h]

@[simp] theorem reading_giveBack (n : Nest) (i a j : Nat) :
    ((n.giveBack i a).1.frame j).reading = (n.frame j).reading := by
  unfold giveBack
  split
  · exact reading_setQueue _ _ _ _
  · rfl

theorem reading_push (n : Nest) (kind : FrameKind) (i : Nat) :
    ((n.push kind).2.frame i).reading = (n.frame i).reading := by
  rcases Nat.lt_trichotomy i n.frames.length with hlt | rfl | hgt
  · rw [frame_push_of_lt kind hlt]
  · rw [frame_of_not_made (le_refl _)]
    simp [push, frame, default]
  · rw [frame_of_not_made hgt.le, frame_of_not_made (by rw [length_frames_push]; exact hgt)]

theorem reading_setReading_self (hi : i < n.frames.length) (b : Bool) :
    ((n.setReading i b).frame i).reading = b := by
  rw [setReading, frame_update_self n i _ hi]

theorem reading_setReading_ne (h : j ≠ i) (b : Bool) :
    ((n.setReading i b).frame j).reading = (n.frame j).reading := by
  rw [setReading, frame_update_ne n i j _ h]

/-- A handle marks its frame if it is taken for reading, and no other. -/
theorem reading_lease (hi : i < n.frames.length) (hfree : (n.frame i).reading = false)
    (a : Nat) (forReading : Bool) (j : Nat) :
    ((n.lease i a forReading).2.frame j).reading =
      if j = i then forReading else (n.frame j).reading := by
  cases forReading with
  | false =>
    by_cases h : j = i
    · simp [lease, h, hfree]
    · simp [lease, h]
  | true =>
    by_cases h : j = i
    · simp [lease, h, reading_setReading_self hi]
    · simp [lease, h, reading_setReading_ne h]

/-- A handle that stops reading leaves its frame unmarked, if only a reading one has marked it. -/
theorem reading_endReading_eq {h : Handle} (hi : h.frame < n.frames.length)
    (hmark : (n.frame h.frame).reading = true → h.forReading = true) (j : Nat) :
    ((n.endReading h).frame j).reading =
      if j = h.frame then false else (n.frame j).reading := by
  unfold endReading
  cases hreading : h.forReading with
  | false =>
    by_cases hj : j = h.frame
    · have hfree : (n.frame h.frame).reading = false := by
        by_contra hset
        rw [hmark (by simpa using hset)] at hreading
        cases hreading
      simp [hj, hfree]
    · simp [hj]
  | true =>
    by_cases hj : j = h.frame
    · simp [hj, reading_setReading_self hi]
    · simp [hj, reading_setReading_ne hj]

end Marks

/-- The nests that come of their operations in any order, whoever carries them out: with the
handles that are out, with the invokers in hand, each beside its frame, that were taken and not
made a handle yet or were let go of and not given back yet, and with the callers that wait, each
by its frame and its ticket. -/
inductive Lent : Nest → Multiset Holding → Multiset (Nat × Nat) → Multiset (Nat × Nat) → Prop
  | initial : Lent .initial 0 0 0
  | push {n out hands waiting} (kind : FrameKind) (h : Lent n out hands waiting) :
      Lent (n.push kind).2 out hands waiting
  | pop {n out hands waiting} {id : Nat} {n' : Nest} (h : Lent n out hands waiting)
      (hpop : n.pop = .ok (id, n')) : Lent n' out hands waiting
  | popFrame {n out hands waiting} {frame id : Nat} {n' : Nest} (h : Lent n out hands waiting)
      (hpop : n.popFrame frame = .ok (id, n')) : Lent n' out hands waiting
  | tryTake {n out hands waiting} {i a : Nat} {q : WaitQueue Nat} (h : Lent n out hands waiting)
      (htake : (n.frame i).queue.tryTake = some (a, q)) :
      Lent (n.setQueue i q) out ((i, a) ::ₘ hands) waiting
  | ask {n out hands waiting} {i : Nat} (h : Lent n out hands waiting)
      (hi : i < n.frames.length) (cancelled : Bool) :
      Lent (n.ask i cancelled).2 out ((n.ask i cancelled).1.lease i + hands)
        ((n.ask i cancelled).1.place i + waiting)
  | look {n out hands waiting} {i ticket : Nat} (h : Lent n out hands ((i, ticket) ::ₘ waiting))
      (cancelled : Bool) :
      Lent (n.look i ticket cancelled).2 out ((n.look i ticket cancelled).1.lease i + hands)
        ((n.look i ticket cancelled).1.place i + waiting)
  | withdraw {n out hands waiting} {i ticket : Nat}
      (h : Lent n out hands ((i, ticket) ::ₘ waiting)) :
      Lent (n.withdraw i ticket).1 out hands waiting
  | mark {n out hands waiting} {i a : Nat} (h : Lent n out ((i, a) ::ₘ hands) waiting)
      (forReading : Bool) :
      Lent (n.lease i a forReading).2 ({ handle := (n.lease i a forReading).1 } ::ₘ out) hands
        waiting
  | stop {n out hands waiting} {p : Holding} (h : Lent n (p ::ₘ out) hands waiting) :
      Lent (n.endReading p.handle) ({ p with stopped := true } ::ₘ out) hands waiting
  | letGo {n out hands waiting} {p : Holding} (h : Lent n (p ::ₘ out) hands waiting) :
      Lent (n.endReading p.handle) out (p.handle.lease ::ₘ hands) waiting
  | giveBack {n out hands waiting} {i a : Nat} (h : Lent n out ((i, a) ::ₘ hands) waiting) :
      Lent (n.giveBack i a).1 out hands waiting

/-- The invokers that are out, in handles or in hand. -/
def liveIn (out : Multiset Holding) (hands : Multiset (Nat × Nat)) : Multiset (Nat × Nat) :=
  out.map (·.handle.lease) + hands

/-- The account is kept, and the frames marked are those of the handles that read. -/
structure Marked (n : Nest) (out : Multiset Holding) (hands waiting : Multiset (Nat × Nat)) :
    Prop where
  accounted : n.Accounted (liveIn out hands) waiting
  exact : ∀ i, (n.frame i).reading = true ↔ ReadsOn out i

section Marked

variable {n n' : Nest} {out : Multiset Holding}
  {hands waiting hands' waiting' : Multiset (Nat × Nat)} {p : Holding} {i a : Nat}

@[simp] theorem liveIn_cons_hand (out : Multiset Holding) (x : Nat × Nat)
    (hands : Multiset (Nat × Nat)) : liveIn out (x ::ₘ hands) = x ::ₘ liveIn out hands :=
  Multiset.add_cons _ _ _

@[simp] theorem liveIn_cons (p : Holding) (out : Multiset Holding) (hands : Multiset (Nat × Nat)) :
    liveIn (p ::ₘ out) hands = p.handle.lease ::ₘ liveIn out hands := by
  rw [liveIn, Multiset.map_cons, Multiset.cons_add, liveIn]

theorem liveIn_add (out : Multiset Holding) (more hands : Multiset (Nat × Nat)) :
    liveIn out (more + hands) = more + liveIn out hands := by
  rw [liveIn, add_left_comm, liveIn]

/-- No handle is out on a frame whose invoker is elsewhere. -/
theorem frame_ne_of_live {x : Nat × Nat} (h : n.Accounted (x ::ₘ liveIn out hands) waiting) :
    ∀ q ∈ out, q.handle.frame ≠ x.1 := by
  intro q hq heq
  have hnodup := h.live_nodup
  rw [Multiset.map_cons, Multiset.nodup_cons] at hnodup
  have hlive : q.handle.lease ∈ liveIn out hands :=
    Multiset.mem_add.mpr (Or.inl (Multiset.mem_map_of_mem (·.handle.lease) hq))
  exact hnodup.1 (heq ▸ Multiset.mem_map_of_mem Prod.fst hlive)

theorem lt_of_live {x : Nat × Nat} {live : Multiset (Nat × Nat)}
    (h : n.Accounted (x ::ₘ live) waiting) : x.1 < n.frames.length :=
  h.live_made x (Multiset.mem_cons_self x live)

theorem initial_marked : initial.Marked 0 0 0 := by
  refine ⟨initial_accounted, fun i => iff_of_false ?_ (not_readsOn (by simp))⟩
  cases i <;> simp [initial, frame, default]

/-- What marks no frame and unmarks none keeps the marks exact. -/
theorem Marked.of_same (h : n.Marked out hands waiting)
    (hnest : n'.Accounted (liveIn out hands') waiting')
    (hreading : ∀ i, (n'.frame i).reading = (n.frame i).reading) :
    n'.Marked out hands' waiting' :=
  ⟨hnest, fun i => by rw [hreading, h.exact]⟩

theorem Marked.tryTake {q : WaitQueue Nat} (h : n.Marked out hands waiting)
    (htake : (n.frame i).queue.tryTake = some (a, q)) :
    (n.setQueue i q).Marked out ((i, a) ::ₘ hands) waiting := by
  have hlease : n.tryLease i false =
      some ({ invoker := a, frame := i, forReading := false }, n.setQueue i q) := by
    simp [tryLease, htake, lease]
  have hnest := h.accounted.tryLease (lt_of_tryLease hlease) hlease
  rw [Handle.lease, ← liveIn_cons_hand] at hnest
  exact h.of_same hnest (reading_setQueue n i q)

theorem Marked.mark (h : n.Marked out ((i, a) ::ₘ hands) waiting) (forReading : Bool) :
    (n.lease i a forReading).2.Marked ({ handle := (n.lease i a forReading).1 } ::ₘ out) hands
      waiting := by
  have hnest := h.accounted
  rw [liveIn_cons_hand] at hnest
  have hothers := frame_ne_of_live hnest
  have hi : i < n.frames.length := lt_of_live hnest
  have hfree : (n.frame i).reading = false := by
    by_contra hset
    exact not_readsOn hothers ((h.exact i).mp (by simpa using hset))
  refine ⟨?_, fun j => ?_⟩
  · rw [liveIn_cons]
    unfold lease
    cases forReading
    · exact hnest
    · exact hnest.setReading true
  · rw [reading_lease hi hfree]
    by_cases hj : j = i
    · subst hj
      rw [if_pos rfl]
      refine Iff.trans ?_ (readsOn_cons_self hothers).symm
      simp [Holding.Reads, lease]
    · rw [if_neg hj]
      exact (h.exact j).trans (readsOn_cons_ne hj).symm

/-- A handle whose frame is marked is the one that reads on it. -/
theorem Marked.forReading (h : n.Marked (p ::ₘ out) hands waiting)
    (hreading : (n.frame p.handle.frame).reading = true) : p.handle.forReading = true := by
  have hnest := h.accounted
  rw [liveIn_cons] at hnest
  exact ((readsOn_cons_self (frame_ne_of_live hnest)).mp ((h.exact _).mp hreading)).1

theorem Marked.reading_endReading (h : n.Marked (p ::ₘ out) hands waiting) (j : Nat) :
    ((n.endReading p.handle).frame j).reading =
      if j = p.handle.frame then false else (n.frame j).reading := by
  have hnest := h.accounted
  rw [liveIn_cons] at hnest
  exact reading_endReading_eq (h := p.handle) (lt_of_live hnest) h.forReading j

/-- After a handle has stopped reading, or was let go of, no handle reads on its frame. -/
theorem Marked.unmarked (h : n.Marked (p ::ₘ out) hands waiting) (j : Nat) :
    ((n.endReading p.handle).frame j).reading = true ↔ ReadsOn out j := by
  have hnest := h.accounted
  rw [liveIn_cons] at hnest
  rw [h.reading_endReading]
  by_cases hj : j = p.handle.frame
  · rw [if_pos hj, hj]
    exact iff_of_false Bool.false_ne_true (not_readsOn (frame_ne_of_live hnest))
  · rw [if_neg hj, h.exact, readsOn_cons_ne hj]

theorem Marked.stop (h : n.Marked (p ::ₘ out) hands waiting) :
    (n.endReading p.handle).Marked ({ p with stopped := true } ::ₘ out) hands waiting := by
  have hnest := h.accounted
  rw [liveIn_cons] at hnest
  refine ⟨?_, fun j => (h.unmarked j).trans ?_⟩
  · rw [liveIn_cons]
    exact hnest.endReading p.handle
  · by_cases hj : j = p.handle.frame
    · have hself : ReadsOn ({ p with stopped := true } ::ₘ out) p.handle.frame ↔ False :=
        (readsOn_cons_self (p := { p with stopped := true }) (frame_ne_of_live hnest)).trans
          (by simp [Holding.Reads])
      rw [hj, hself]
      exact iff_of_false (not_readsOn (frame_ne_of_live hnest)) id
    · exact (readsOn_cons_ne (p := { p with stopped := true }) hj).symm

theorem Marked.letGo (h : n.Marked (p ::ₘ out) hands waiting) :
    (n.endReading p.handle).Marked out (p.handle.lease ::ₘ hands) waiting := by
  have hnest := h.accounted
  rw [liveIn_cons, ← liveIn_cons_hand] at hnest
  exact ⟨hnest.endReading p.handle, h.unmarked⟩

/-- Giving an invoker back is what the release of a handle does that was not for reading. -/
theorem Marked.giveBack (h : n.Marked out ((i, a) ::ₘ hands) waiting) :
    (n.giveBack i a).1.Marked out hands waiting := by
  have hlease : (Handle.mk a i false).lease = (i, a) := rfl
  have hnest := h.accounted
  rw [liveIn_cons_hand, ← hlease] at hnest
  exact h.of_same hnest.release.1 (reading_giveBack n i a)

end Marked

theorem marked_of_lent {n : Nest} {out : Multiset Holding} {hands waiting : Multiset (Nat × Nat)}
    (h : Lent n out hands waiting) : n.Marked out hands waiting := by
  induction h with
  | initial => exact initial_marked
  | push kind _ ih => exact ih.of_same (ih.accounted.push kind) (reading_push _ kind)
  | pop _ hpop ih =>
    exact ih.of_same (ih.accounted.pop hpop) fun i => (frame_of_pop hpop i).2
  | popFrame _ hpop ih =>
    exact ih.of_same (ih.accounted.popFrame hpop) fun i =>
      (frame_of_pop (pop_of_popFrame hpop).2.2 i).2
  | tryTake _ htake ih => exact ih.tryTake htake
  | ask _ hi cancelled ih =>
    have hnest := ih.accounted.ask hi cancelled
    rw [← liveIn_add] at hnest
    exact ih.of_same hnest (reading_setQueue _ _ _)
  | look _ cancelled ih =>
    have hnest := ih.accounted.look cancelled
    rw [← liveIn_add] at hnest
    exact ih.of_same hnest (reading_setQueue _ _ _)
  | withdraw _ ih => exact ih.of_same ih.accounted.withdraw.1 (reading_setQueue _ _ _)
  | mark _ forReading ih => exact ih.mark forReading
  | stop _ ih => exact ih.stop
  | letGo _ ih => exact ih.letGo
  | giveBack _ ih => exact ih.giveBack

section Releases

variable {n : Nest} {out : Multiset Holding} {hands waiting : Multiset (Nat × Nat)} {i a : Nat}

/-- An invoker that is given back while callers are parked is handed to the first of them. -/
theorem handed_of_giveBack {ticket : Nat} (hi : i < n.frames.length)
    (hnodup : (n.frame i).queue.tickets.Nodup)
    (hparked : (n.frame i).queue.parked.head? = some ticket) (a : Nat) :
    ((n.giveBack i a).1.frame i).queue.handed.lookup ticket = some a := by
  obtain ⟨rest, hline⟩ := List.head?_eq_some_iff.mp hparked
  have hfree := WaitQueue.handed_of_parked hnodup (List.mem_of_mem_head? hparked)
  have hoffer : (n.frame i).queue.offer a = some { (n.frame i).queue with
      parked := rest, handed := (n.frame i).queue.handed ++ [(ticket, a)] } := by
    simp [WaitQueue.offer, hline]
  simp only [giveBack, hoffer]
  rw [setQueue, frame_update_self n i _ hi]
  simp [List.lookup_append, hfree]

/-- What a release leaves: no mark on its own frame, and all others as they were. -/
theorem Marked.reading_release {p : Holding} (h : n.Marked (p ::ₘ out) hands waiting) (j : Nat) :
    ((n.release p.handle).1.frame j).reading =
      if j = p.handle.frame then false else (n.frame j).reading := by
  rw [release_eq, reading_giveBack]
  exact h.reading_endReading j

/-- The caller to which a release hands the invoker marks the frame as it asked to. -/
theorem Marked.reading_handOver {p : Holding} {ticket : Nat}
    (h : n.Marked (p ::ₘ out) hands waiting)
    (hparked : (n.frame p.handle.frame).queue.parked.head? = some ticket)
    (cancelled forReading : Bool) :
    ∃ n', (n.release p.handle).1.look p.handle.frame ticket cancelled =
        (.item p.handle.invoker, n') ∧
      ∀ j, ((n'.lease p.handle.frame p.handle.invoker forReading).2.frame j).reading =
        if j = p.handle.frame then forReading else (n.frame j).reading := by
  have hnest := h.accounted
  rw [liveIn_cons] at hnest
  have hi : p.handle.frame < n.frames.length := lt_of_live hnest
  have hlength : (n.release p.handle).1.frames.length = n.frames.length :=
    (alike_release n p.handle).length
  have hhanded : ((n.release p.handle).1.frame p.handle.frame).queue.handed.lookup ticket =
      some p.handle.invoker := by
    refine handed_of_giveBack (by simpa using hi) ?_ (by simpa using hparked) p.handle.invoker
    rw [queue_endReading]
    exact hnest.tickets_nodup hi
  have hlook : (n.release p.handle).1.look p.handle.frame ticket cancelled =
      (.item p.handle.invoker, (n.release p.handle).1.setQueue p.handle.frame
        (((n.release p.handle).1.frame p.handle.frame).queue.withoutHanded ticket)) := by
    simp only [look, WaitQueue.look, hhanded]
  refine ⟨_, hlook, fun j => ?_⟩
  rw [reading_lease (by simpa [hlength] using hi)
    (by rw [reading_setQueue, h.reading_release, if_pos rfl]), reading_setQueue, h.reading_release]
  split <;> rfl

end Releases

/-- In every nest that comes of its operations, a frame, popped or not, is marked exactly if a
handle of it is out that was taken for reading and has not stopped. A release unmarks its own
frame and leaves the others as they are; when it hands the invoker straight to a parked caller,
that caller finds the frame unmarked and leaves it marked exactly if it asked for reading. -/
theorem reading_exact {n : Nest} {out : Multiset Holding} {hands waiting : Multiset (Nat × Nat)}
    (h : Lent n out hands waiting) :
    (∀ i, (n.frame i).reading = true ↔
      ∃ p ∈ out, p.handle.frame = i ∧ p.handle.forReading = true ∧ p.stopped = false) ∧
    ∀ p ∈ out,
      (∀ i, ((n.release p.handle).1.frame i).reading =
        if i = p.handle.frame then false else (n.frame i).reading) ∧
      ∀ ticket, (n.frame p.handle.frame).queue.parked.head? = some ticket →
        ∀ cancelled forReading, ∃ n', (n.release p.handle).1.look p.handle.frame ticket cancelled =
            (.item p.handle.invoker, n') ∧
          ∀ i, ((n'.lease p.handle.frame p.handle.invoker forReading).2.frame i).reading =
            if i = p.handle.frame then forReading else (n.frame i).reading := by
  have hmarked := marked_of_lent h
  refine ⟨hmarked.exact, fun p hp => ?_⟩
  obtain ⟨others, rfl⟩ := Multiset.exists_cons_of_mem hp
  exact ⟨hmarked.reading_release, fun ticket => hmarked.reading_handOver⟩

/-- A prompt reads on a pushed frame while another waits for it. Its handle is released, which
hands the invoker over, and the frame is popped before the second prompt has looked: then that one
reads on the popped frame. -/
theorem reading_exact_popped : ∃ n out waiting, Lent n out 0 waiting ∧
    (n.frame 1).isPopped = true ∧ (n.frame 1).reading = true := by
  have hpushed := Lent.initial.push .nestedPrompt
  have hfirst := (hpushed.tryTake (i := 1) rfl).mark true
  have hasked : Lent _ _ 0 ((1, 0) ::ₘ 0) := hfirst.ask (i := 1) (by decide) false
  have hreleased := hasked.letGo.giveBack
  have hpopped : Lent _ _ 0 ((1, 0) ::ₘ 0) := hreleased.pop rfl
  have hlooked : Lent _ _ ((1, 1) ::ₘ 0) 0 := hpopped.look false
  have hread := hlooked.mark true
  refine ⟨_, _, _, hread, rfl, ((reading_exact hread).1 1).mpr ?_⟩
  exact ⟨_, Multiset.mem_cons_self _ _, rfl, rfl, rfl⟩

end Nest

end ScriptHost
