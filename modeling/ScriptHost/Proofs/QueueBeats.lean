import Mathlib.Logic.Function.Basic
import ScriptHost.Proofs.CancelledDequeues

/-!
The callers of a hand-off queue on threads of their own. A call does one thing at a time, under
the lock of the queue or without it, and other calls come in between. Who takes the slot's item
announces that only once the lock is given back. An announcement reaches all who began to listen
before it, and a call that puts its item in listens from before it tries. A step of the callers
that are polled by hand is a few such beats with nothing in between.
-/

namespace ScriptHost

section Lookup

variable {β : Type} (l : List (String × β)) (key name : String)

theorem lookup_cons_eq (b : β) :
    ((key, b) :: l).lookup name = if name = key then some b else l.lookup name := by
  by_cases h : name = key
  · simp [h]
  · simp [List.lookup_cons, beq_false_of_ne h, h]

theorem lookup_filter_ne :
    (l.filter (·.1 != key)).lookup name = if name = key then none else l.lookup name := by
  induction l with
  | nil => simp
  | cons p rest ih =>
    obtain ⟨k, b⟩ := p
    by_cases hk : k = key
    · subst hk
      simp only [bne_self_eq_false, Bool.false_eq_true, not_false_eq_true, List.filter_cons_of_neg,
        ih, lookup_cons_eq]
      split <;> rfl
    · have hkeep : (k != key) = true := by simpa using hk
      simp only [List.filter_cons, hkeep, if_true, lookup_cons_eq, ih]
      split
      · next h => rw [if_neg (h ▸ hk)]
      · rfl

theorem lookup_map_replace (b : β) :
    (l.map fun p => if p.1 == key then (key, b) else p).lookup name =
      if name = key then (l.lookup name).map fun _ => b else l.lookup name := by
  induction l with
  | nil => simp
  | cons p rest ih =>
    obtain ⟨k, b'⟩ := p
    by_cases hk : k = key
    · subst hk
      simp only [List.map_cons, beq_self_eq_true, if_true, lookup_cons_eq, ih]
      split <;> simp
    · have hkeep : (k == key) = false := beq_false_of_ne hk
      simp only [List.map_cons, hkeep, Bool.false_eq_true, if_false, lookup_cons_eq, ih]
      split
      · next h => simp [h ▸ hk]
      · rfl

theorem any_key_eq : l.any (·.1 == key) = (l.lookup key).isSome := by
  induction l with
  | nil => rfl
  | cons p rest ih =>
    obtain ⟨k, b⟩ := p
    rw [List.any_cons, ih, lookup_cons_eq]
    by_cases hk : key = k
    · simp [hk]
    · simp [hk, Ne.symm hk]

end Lookup

namespace WaitQueue

/-- How far a call has come. A put is about to try, or is blocked; it counts the announcements
that had been made when it began to listen. A dequeue waits, is about to look at its token, or
is about to leave. -/
inductive Stage (α : Type) where
  | trying (item : α) (heard : Nat)
  | blocked (item : α) (heard : Nat)
  | waiting (ticket : Nat) (token : Option Token)
  | unserved (ticket : Nat) (token : Option Token)
  | leaving (ticket : Nat)

/-- A queue with the calls on it, and how many of the takes from its slot were announced. -/
structure Threads (α : Type) where
  queue : WaitQueue α := {}
  announced : Nat := 0
  cancelled : List Token := []
  stage : String → Option (Stage α) := fun _ => none

/-- A beat starts a call or lets it do the next thing. A call that is polled does the next
things until it waits. -/
inductive Beat (α : Type) where
  | tryPut (item : α)
  | put (name : String) (item : α)
  | tryTake
  | take (name : String) (token : Option Token)
  | announce
  | go (name : String)
  | drop (name : String)
  | cancel (token : Token)
  | close

namespace Threads

variable {α : Type}

def isCancelled (t : Threads α) (token : Option Token) : Bool :=
  token.any t.cancelled.contains

def setStage (t : Threads α) (name : String) (stage : Option (Stage α)) : Threads α :=
  { t with stage := Function.update t.stage name stage }

/-- A waiting call gives its ticket back. -/
def withdraw (t : Threads α) (name : String) (ticket : Nat) : Threads α :=
  { t with queue := (t.queue.withdraw ticket).1 }.setStage name none

/-- What a call does next. One that was blocked and has heard an announcement listens anew before
it tries again; one that waits looks for its item before it looks at its token. -/
def next (t : Threads α) (name : String) : Stage α → Threads α
  | .trying item heard =>
    match t.queue.offer item with
    | some queue => { t with queue }.setStage name none
    | none => t.setStage name (some (.blocked item heard))
  | .blocked item heard =>
    if t.announced = heard then t else t.setStage name (some (.trying item t.announced))
  | .waiting ticket token =>
    match t.queue.look ticket false with
    | (.waiting _, _) => t.setStage name (some (.unserved ticket token))
    | (_, queue) => { t with queue }.setStage name none
  | .unserved ticket token =>
    t.setStage name (some (if t.isCancelled token then .leaving ticket else .waiting ticket token))
  | .leaving ticket => t.withdraw name ticket

/-- A call can be dropped only between two polls. -/
def drop (t : Threads α) (name : String) : Stage α → Threads α
  | .blocked _ _ => t.setStage name none
  | .waiting ticket _ => t.withdraw name ticket
  | _ => t

/-- Each take from the slot is announced once; which of them an announcement is for makes no
difference. -/
def announce (t : Threads α) : Threads α :=
  if t.announced < t.queue.takes then { t with announced := t.announced + 1 } else t

def beat (t : Threads α) : Beat α → Threads α
  | .tryPut item => { t with queue := (t.queue.offer item).getD t.queue }
  | .put name item => t.setStage name (some (.trying item t.announced))
  | .tryTake => { t with queue := (t.queue.tryTake.map Prod.snd).getD t.queue }
  | .take name token =>
    match t.queue.take (t.isCancelled token) with
    | (.waiting ticket, queue) => { t with queue }.setStage name (some (.waiting ticket token))
    | (_, queue) => { t with queue }
  | .announce => t.announce
  | .go name => (t.stage name).elim t (t.next name)
  | .drop name => (t.stage name).elim t (t.drop name)
  | .cancel token => { t with cancelled := token :: t.cancelled }
  | .close => { t with queue := t.queue.close }

section SetStage

variable (t : Threads α) (name : String) (s s' : Option (Stage α))

@[simp] theorem stage_setStage : (t.setStage name s).stage name = s :=
  Function.update_self ..

theorem stage_setStage_ne {other : String} (h : other ≠ name) :
    (t.setStage name s).stage other = t.stage other :=
  Function.update_of_ne h ..

@[simp] theorem setStage_setStage : (t.setStage name s).setStage name s' = t.setStage name s' := by
  simp [setStage]

@[simp] theorem queue_setStage : (t.setStage name s).queue = t.queue := rfl

theorem announce_setStage : (t.setStage name s).announce = t.announce.setStage name s := by
  by_cases h : t.announced < t.queue.takes <;> simp [announce, setStage, h]

@[simp] theorem isCancelled_setStage (token : Option Token) :
    (t.setStage name s).isCancelled token = t.isCancelled token := rfl

end SetStage

theorem beat_go {t : Threads α} {name : String} {s : Stage α} (h : t.stage name = some s) :
    t.beat (.go name) = t.next name s := by
  simp [beat, h]

theorem beat_go_none {t : Threads α} {name : String} (h : t.stage name = none) :
    t.beat (.go name) = t := by
  simp [beat, h]

/-- A call that starts has a name of its own. -/
def Fresh (t : Threads α) : Beat α → Prop
  | .put name _ | .take name _ => t.stage name = none
  | _ => True

/-- The beats so far, the last one first, each with the state before it. -/
abbrev History (α : Type) := List (Threads α × Beat α)

/-- Beats of all calls in any order, on a queue that is empty at first or has an item. -/
inductive Run (initial : Option α) : History α → Threads α → Prop
  | start : Run initial [] { queue := initial.elim {} withItem }
  | beat {past : History α} {t : Threads α} (b : Beat α) (h : Run initial past t)
      (hfresh : t.Fresh b) : Run initial ((t, b) :: past) (t.beat b)

def beats (t : Threads α) (bs : List (Beat α)) : Threads α :=
  bs.foldl beat t

@[simp] theorem beats_nil (t : Threads α) : t.beats [] = t := rfl

@[simp] theorem beats_cons (t : Threads α) (b : Beat α) (bs : List (Beat α)) :
    t.beats (b :: bs) = (t.beat b).beats bs := rfl

theorem beats_append (t : Threads α) (bs bs' : List (Beat α)) :
    t.beats (bs ++ bs') = (t.beats bs).beats bs' :=
  List.foldl_append ..

/-- Beats in a row, of which only the first may start a call. -/
theorem run_of_beats {initial : Option α} {past : History α} {t : Threads α}
    (h : Run initial past t) {bs : List (Beat α)} (hfirst : ∀ b ∈ bs.head?, t.Fresh b)
    (hrest : ∀ b ∈ bs.tail, ∀ t : Threads α, t.Fresh b) :
    ∃ later, Run initial (later ++ past) (t.beats bs) := by
  induction bs generalizing past t with
  | nil => exact ⟨[], h⟩
  | cons b bs ih =>
    have hbeat := h.beat b (hfirst b rfl)
    obtain ⟨later, hlater⟩ := ih hbeat
      (fun b' hb' => hrest b' (List.mem_of_mem_head? hb') _)
      (fun b' hb' => hrest b' (List.mem_of_mem_tail hb'))
    exact ⟨later ++ [(t, b)], by simpa using hlater⟩

end Threads

section Takes

variable {α : Type} {q q' : WaitQueue α} {a : α}

theorem takes_offer (h : q.offer a = some q') : q'.takes = q.takes := by
  unfold offer at h
  split at h <;> cases h <;> rfl

theorem takes_tryTake (h : q.tryTake = some (a, q')) : q'.takes = q.takes + 1 := by
  unfold tryTake at h
  split at h
  · cases h
  · obtain ⟨b, -, hb⟩ := Option.map_eq_some_iff.mp h
    cases hb
    rfl

theorem takes_take (q : WaitQueue α) (cancelled : Bool) :
    match q.take cancelled with
    | (.item _, q') => q'.takes = q.takes + 1
    | (_, q') => q'.takes = q.takes := by
  unfold take
  cases q.closed with
  | true => rfl
  | false =>
    cases q.slot with
    | some a => rfl
    | none => cases cancelled <;> rfl

theorem takes_look (q : WaitQueue α) (ticket : Nat) (cancelled : Bool) :
    (q.look ticket cancelled).2.takes = q.takes := by
  unfold look
  split
  · rfl
  · split
    · rfl
    · split <;> rfl

theorem takes_withdraw (q : WaitQueue α) (ticket : Nat) :
    (q.withdraw ticket).1.takes = q.takes := by
  unfold withdraw
  split
  · rfl
  · dsimp only
    split
    · next hoffer => exact (takes_offer hoffer).trans rfl
    · rfl

end Takes

def Call.stage {α : Type} : Call α → Stage α
  | taking ticket token => .waiting ticket token
  | putting item seen => .blocked item seen

namespace Callers

variable {α : Type} {c : Callers α} {name : String}

theorem lookup_forget (c : Callers α) (name other : String) :
    (c.forget name).pending.lookup other =
      if other = name then none else c.pending.lookup other :=
  lookup_filter_ne _ _ _

theorem lookup_keep (c : Callers α) (name other : String) (call : Call α) :
    (c.keep name call).pending.lookup other =
      if other = name then some call else c.pending.lookup other := by
  unfold keep
  rw [any_key_eq]
  cases hlookup : c.pending.lookup name with
  | some old =>
    simp only [Option.isSome_some, if_true, lookup_map_replace]
    split
    · next h => rw [h, hlookup, Option.map_some]
    · rfl
  | none =>
    simp only [Option.isSome_none, Bool.false_eq_true, if_false, List.lookup_append,
      lookup_cons_eq, List.lookup_nil]
    split
    · next h => rw [h, hlookup, Option.none_or]
    · rw [Option.or_none]

/-- Between two steps no call is in the middle of a poll and every take was announced. -/
def atRest (c : Callers α) : Threads α where
  queue := c.queue
  announced := c.queue.takes
  cancelled := c.cancelled
  stage name := (c.pending.lookup name).map Call.stage

theorem atRest_forget (c : Callers α) (name : String) :
    (c.forget name).atRest = c.atRest.setStage name none := by
  have hstage : ∀ other, ((c.forget name).pending.lookup other).map Call.stage =
      Function.update c.atRest.stage name none other := by
    intro other
    rw [lookup_forget, Function.update_apply]
    split <;> rfl
  simp only [atRest, Threads.setStage, Threads.mk.injEq]
  exact ⟨rfl, rfl, rfl, funext hstage⟩

theorem atRest_keep (c : Callers α) (name : String) (call : Call α) :
    (c.keep name call).atRest = c.atRest.setStage name (some call.stage) := by
  have hstage : ∀ other, ((c.keep name call).pending.lookup other).map Call.stage =
      Function.update c.atRest.stage name (some call.stage) other := by
    intro other
    rw [lookup_keep, Function.update_apply]
    split <;> rfl
  have hcancelled : (c.keep name call).cancelled = c.cancelled := by
    unfold keep
    split <;> rfl
  simp only [atRest, Threads.setStage, Threads.mk.injEq, queue_keep, hcancelled, true_and]
  exact funext hstage

/-- The beats of one poll. A cancelled call that nothing has reached has one more, in which it
leaves. -/
def pollBeats (c : Callers α) (name : String) : List (Beat α) :=
  match c.pending.lookup name with
  | some (.taking _ token) =>
    .go name :: .go name :: if c.isCancelled token then [.go name] else []
  | _ => [.go name, .go name]

def eachBeats (c : Callers α) : List String → List (Beat α)
  | [] => []
  | name :: names => c.pollBeats name ++ (c.poll name).2.eachBeats names

/-- The beats of a step that nothing interrupts. -/
def beatsOf (c : Callers α) : Step α → List (Beat α)
  | .tryPut item => [.tryPut item]
  | .put name item => [.put name item, .go name]
  | .tryTake => [.tryTake, .announce]
  | .take name token => [.take name token, .announce]
  | .poll name => c.pollBeats name
  | .pollAll => c.eachBeats (c.pending.map Prod.fst)
  | .drop name => [.drop name]
  | .cancel token => [.cancel token]
  | .close => [.close]

section Simulation

variable {q : WaitQueue α} {ticket : Nat} {token : Option Token}

theorem atRest_with (h : q.takes = c.queue.takes) :
    ({ c with queue := q } : Callers α).atRest = { c.atRest with queue := q } := by
  simp only [atRest, h]

theorem announce_atRest (h : q.takes = c.queue.takes ∨ q.takes = c.queue.takes + 1) :
    ({ c.atRest with queue := q } : Threads α).announce =
      ({ c with queue := q } : Callers α).atRest := by
  rcases h with h | h
  · simp [Threads.announce, atRest, h]
  · simp [Threads.announce, atRest, h]

/-- A put that tries, whatever its stage was before. -/
theorem next_trying (c : Callers α) (name : String) (item : α) (s : Option (Stage α)) :
    (c.atRest.setStage name s).next name (.trying item c.queue.takes) =
      (c.tryPut name item).2.atRest := by
  have hqueue : (c.atRest.setStage name s).queue = c.queue := rfl
  unfold tryPut
  simp only [Threads.next, hqueue]
  cases hoffer : c.queue.offer item with
  | none => simp [atRest_keep, Call.stage]
  | some q =>
    rw [atRest_forget, atRest_with (takes_offer hoffer)]
    exact Threads.setStage_setStage { c.atRest with queue := q } name s none

section Taking

theorem pollBeats_taking (hcall : c.pending.lookup name = some (.taking ticket token)) :
    c.pollBeats name = .go name :: .go name :: if c.isCancelled token then [.go name] else [] := by
  simp only [pollBeats, hcall]

theorem stage_taking (hcall : c.pending.lookup name = some (.taking ticket token)) :
    c.atRest.stage name = some (.waiting ticket token) := by
  simp [atRest, hcall, Call.stage]

/-- A call that has ended does nothing in the beats that are left of the poll. -/
theorem beats_ended (hcall : c.pending.lookup name = some (.taking ticket token))
    (htakes : q.takes = c.queue.takes)
    (hnext : c.atRest.next name (.waiting ticket token) =
      { c.atRest with queue := q }.setStage name none) :
    c.atRest.beats (c.pollBeats name) = ({ c with queue := q }.forget name).atRest := by
  have hnone : (c.atRest.next name (.waiting ticket token)).stage name = none := by
    rw [hnext, Threads.stage_setStage]
  rw [atRest_forget, atRest_with htakes, ← hnext, pollBeats_taking hcall, Threads.beats_cons,
    Threads.beat_go (stage_taking hcall), Threads.beats_cons, Threads.beat_go_none hnone]
  split <;> simp [Threads.beat_go_none hnone]

/-- A call that is parked looks in vain. Then it leaves if it is cancelled. -/
theorem beats_parked (hcall : c.pending.lookup name = some (.taking ticket token))
    (hhanded : c.queue.handed.lookup ticket = none) (hparked : ticket ∈ c.queue.parked) :
    c.atRest.beats (c.pollBeats name) = (c.poll name).2.atRest := by
  have hqueue : c.atRest.queue = c.queue := rfl
  have htoken : c.atRest.isCancelled token = c.isCancelled token := rfl
  have hunserved : c.atRest.next name (.waiting ticket token) =
      c.atRest.setStage name (some (.unserved ticket token)) := by
    simp [Threads.next, hqueue, look, hhanded, hparked]
  rw [pollBeats_taking hcall, Threads.beats_cons, Threads.beat_go (stage_taking hcall), hunserved,
    Threads.beats_cons, Threads.beat_go (Threads.stage_setStage ..), poll_taking hcall]
  cases hcancelled : c.isCancelled token with
  | true =>
    have hlook : c.queue.look ticket true =
        (.failed .cancelled, c.queue.withoutParked ticket) := by
      simp [look, hhanded, hparked]
    have htakes : (c.queue.withoutParked ticket).takes = c.queue.takes := rfl
    simp only [Threads.next, Threads.isCancelled_setStage, htoken, hcancelled, if_true,
      Threads.setStage_setStage, Threads.beats_cons, Threads.beats_nil]
    rw [Threads.beat_go (Threads.stage_setStage ..), hlook, settleTake, atRest_forget,
      atRest_with htakes]
    simp only [Threads.next, Threads.withdraw, Threads.queue_setStage, hqueue,
      withdraw_of_not_handed hhanded]
    exact Threads.setStage_setStage { c.atRest with queue := _ } name _ none
  | false =>
    have hlook : c.queue.look ticket false = (.waiting ticket, c.queue) := by
      simp [look, hhanded, hparked]
    rw [hlook, settleTake, atRest_keep]
    simp [Threads.next, htoken, hcancelled, Call.stage]

theorem beats_taking (hcall : c.pending.lookup name = some (.taking ticket token)) :
    c.atRest.beats (c.pollBeats name) = (c.poll name).2.atRest := by
  have hqueue : c.atRest.queue = c.queue := rfl
  cases hhanded : c.queue.handed.lookup ticket with
  | some a =>
    have hlook : ∀ cancelled, c.queue.look ticket cancelled =
        (.item a, c.queue.withoutHanded ticket) := look_of_handed hhanded
    rw [poll_taking hcall, hlook, settleTake]
    exact beats_ended hcall rfl (by simp only [Threads.next, hqueue, hlook])
  | none =>
    by_cases hparked : ticket ∈ c.queue.parked
    · exact beats_parked hcall hhanded hparked
    · have hlook : ∀ cancelled, c.queue.look ticket cancelled =
          (.failed .handleQueueClosed, c.queue) := by
        simp [look, hhanded, hparked]
      rw [poll_taking hcall, hlook, settleTake]
      exact beats_ended hcall rfl (by simp only [Threads.next, hqueue, hlook])

end Taking

theorem beats_poll (c : Callers α) (name : String) :
    c.atRest.beats (c.pollBeats name) = (c.poll name).2.atRest := by
  cases hcall : c.pending.lookup name with
  | none =>
    have hstage : c.atRest.stage name = none := by simp [atRest, hcall]
    simp [poll, pollBeats, hcall, Threads.beat_go_none hstage]
  | some call =>
    cases call with
    | taking ticket token => exact beats_taking hcall
    | putting item seen =>
      have hstage : c.atRest.stage name = some (.blocked item seen) := by
        simp [atRest, hcall, Call.stage]
      have hbeats : c.atRest.beats (c.pollBeats name) =
          (c.atRest.beat (.go name)).beat (.go name) := by
        simp [pollBeats, hcall]
      have hannounced : c.atRest.announced = c.queue.takes := rfl
      rw [hbeats, Threads.beat_go hstage]
      simp only [poll, hcall, pollCall, Threads.next, hannounced]
      split
      · rw [Threads.beat_go hstage]
        next h => simp [Threads.next, hannounced, h]
      · rw [Threads.beat_go (Threads.stage_setStage ..)]
        exact next_trying c name item _

theorem beats_each (c : Callers α) (names : List String) :
    c.atRest.beats (c.eachBeats names) = (c.pollEach names).2.atRest := by
  induction names generalizing c with
  | nil => rfl
  | cons name names ih =>
    rw [eachBeats, Threads.beats_append, beats_poll, ih]
    rfl

/-- A step of the callers is its beats with nothing in between. -/
theorem beats_of_step (c : Callers α) (s : Step α) (hfresh : c.Fresh s) :
    c.atRest.beats (c.beatsOf s) = (c.step s).2.atRest := by
  have hqueue : c.atRest.queue = c.queue := rfl
  cases s with
  | tryPut item =>
    simp only [beatsOf, Threads.beats_cons, Threads.beats_nil, Threads.beat, step, hqueue]
    cases hoffer : c.queue.offer item with
    | none => rfl
    | some q => exact (atRest_with (takes_offer hoffer)).symm
  | put name item =>
    exact (Threads.beat_go (Threads.stage_setStage ..)).trans (next_trying c name item _)
  | tryTake =>
    simp only [beatsOf, Threads.beats_cons, Threads.beats_nil, Threads.beat, step, hqueue]
    cases htake : c.queue.tryTake with
    | none => exact announce_atRest (.inl rfl)
    | some x =>
      obtain ⟨a, q⟩ := x
      exact announce_atRest (.inr (takes_tryTake htake))
  | take name token =>
    have htakes := takes_take c.queue (c.isCancelled token)
    have htoken : c.atRest.isCancelled token = c.isCancelled token := rfl
    simp only [beatsOf, Threads.beats_cons, Threads.beats_nil, Threads.beat, step, hqueue, htoken]
    rcases htake : c.queue.take (c.isCancelled token) with ⟨answer, q⟩
    rw [htake] at htakes
    have hforget : { c with queue := q }.forget name = { c with queue := q } :=
      forget_of_fresh hfresh
    cases answer with
    | item a =>
      simp only [settleTake, hforget]
      exact announce_atRest (.inr htakes)
    | failed e =>
      simp only [settleTake, hforget]
      exact announce_atRest (.inl htakes)
    | waiting ticket =>
      have hannounce := announce_atRest (c := c) (.inl htakes)
      simp only [settleTake, atRest_keep, ← hannounce, ← Threads.announce_setStage]
      rfl
  | poll name => exact beats_poll c name
  | pollAll => exact beats_each c _
  | drop name =>
    simp only [beatsOf, Threads.beats_cons, Threads.beats_nil, Threads.beat, step]
    cases hcall : c.pending.lookup name with
    | none => simp [drop, atRest, hcall]
    | some call =>
      cases call with
      | putting item seen =>
        simp only [drop, hcall, atRest_forget]
        simp [atRest, hcall, Call.stage, Threads.drop]
      | taking ticket token =>
        rw [(drop_taking hcall).1, atRest_forget, atRest_with (takes_withdraw ..)]
        simp [atRest, hcall, Call.stage, Threads.drop, Threads.withdraw]
  | cancel token => rfl
  | close => rfl

theorem go_of_pollBeats (c : Callers α) (name : String) :
    ∀ b ∈ c.pollBeats name, b = .go name := by
  unfold pollBeats
  split
  · split <;> simp
  · simp

theorem go_of_eachBeats (c : Callers α) (names : List String) :
    ∀ b ∈ c.eachBeats names, ∃ name, b = .go name := by
  induction names generalizing c with
  | nil => simp [eachBeats]
  | cons name names ih =>
    intro b hb
    rcases List.mem_append.mp hb with hb | hb
    · exact ⟨name, go_of_pollBeats c name b hb⟩
    · exact ih _ b hb

/-- Only the first beat of a step starts a call. -/
theorem fresh_of_beatsOf {s : Step α} (hfresh : c.Fresh s) :
    (∀ b ∈ (c.beatsOf s).head?, c.atRest.Fresh b) ∧
      ∀ b ∈ (c.beatsOf s).tail, ∀ t : Threads α, t.Fresh b := by
  have hgo : ∀ bs : List (Beat α), (∀ b ∈ bs, ∃ name, b = .go name) →
      (∀ b ∈ bs.head?, c.atRest.Fresh b) ∧ ∀ b ∈ bs.tail, ∀ t : Threads α, t.Fresh b := by
    refine fun bs hbs => ⟨fun b hb => ?_, fun b hb t => ?_⟩
    · obtain ⟨name, rfl⟩ := hbs b (List.mem_of_mem_head? hb)
      trivial
    · obtain ⟨name, rfl⟩ := hbs b (List.mem_of_mem_tail hb)
      trivial
  cases s with
  | put name item | take name token =>
    have hnone : c.atRest.stage name = none := congrArg (Option.map Call.stage) hfresh
    simpa [beatsOf, Threads.Fresh] using hnone
  | poll name => exact hgo _ fun b hb => ⟨name, go_of_pollBeats c name b hb⟩
  | pollAll => exact hgo _ (go_of_eachBeats c _)
  | tryPut | tryTake | drop | cancel | close => simp [beatsOf, Threads.Fresh]

/-- The callers that are polled by hand are in no other states than those on threads. -/
theorem run_atRest {initial : Option α} {past : List (Callers α × Step α)}
    (h : Run initial past c) : ∃ history, Threads.Run initial history c.atRest := by
  induction h with
  | start =>
    refine ⟨[], ?_⟩
    cases initial <;> exact .start
  | @step past c s h hs ih =>
    obtain ⟨history, hrun⟩ := ih
    obtain ⟨hfirst, hrest⟩ := fresh_of_beatsOf hs
    obtain ⟨later, hlater⟩ := Threads.run_of_beats hrun hfirst hrest
    exact ⟨later ++ history, beats_of_step c s hs ▸ hlater⟩

end Simulation

end Callers

end WaitQueue

end ScriptHost
