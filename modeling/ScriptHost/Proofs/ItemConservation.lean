import Mathlib.Algebra.Order.Group.Multiset
import Mathlib.Tactic.Abel
import ScriptHost.Proofs.QueueItems
import ScriptHost.WaitQueue.Callers

/-!
Item conservation for the callers of a hand-off queue. What was ever put in is, at any
time, received, in the slot, on its way to a caller that has not looked, held by a caller
that waits for room, or given up together with such a caller. An item is on its way to
one pending call only, an occupied slot leaves nobody parked, and a closed queue parks
nobody. The account is kept by every step, in any order, and after the queue was closed
too.
-/

namespace ScriptHost.WaitQueue

variable {α : Type}

/-- Nobody is parked beside an item in the slot, and nobody is parked in a closed queue. -/
structure Orderly (q : WaitQueue α) : Prop where
  slot_free : q.slot.isSome → q.parked = []
  closed_empty : q.closed = true → q.parked = []

namespace Orderly

variable {q q' : WaitQueue α} {a : α} {ticket : Nat}

/-- A queue stays orderly when callers leave and nothing else changes. -/
theorem of_sublist (h : q.Orderly) (hslot : q'.slot = q.slot) (hclosed : q'.closed = q.closed)
    (hparked : q'.parked.Sublist q.parked) : q'.Orderly where
  slot_free hs := List.sublist_nil.mp (h.slot_free (hslot ▸ hs) ▸ hparked)
  closed_empty hc := List.sublist_nil.mp (h.closed_empty (hclosed ▸ hc) ▸ hparked)

theorem emptied (h : q.Orderly) : q.emptied.Orderly where
  slot_free hs := by simp [WaitQueue.emptied] at hs
  closed_empty := h.closed_empty

theorem offer (h : q.Orderly) (ho : q.offer a = some q') : q'.Orderly := by
  unfold WaitQueue.offer at ho
  split at ho
  · next t rest hparked =>
    cases ho
    constructor
    · intro hslot
      simp [h.slot_free hslot] at hparked
    · intro hclosed
      simp [h.closed_empty hclosed] at hparked
  · next hparked _ =>
    cases ho
    exact ⟨fun _ => hparked, h.closed_empty⟩
  · cases ho

theorem tryTake (h : q.Orderly) (ht : q.tryTake = some (a, q')) : q'.Orderly := by
  unfold WaitQueue.tryTake at ht
  split at ht
  · cases ht
  · obtain ⟨b, -, hb⟩ := Option.map_eq_some_iff.mp ht
    cases hb
    exact h.emptied

theorem take (h : q.Orderly) (cancelled : Bool) : (q.take cancelled).2.Orderly := by
  unfold WaitQueue.take
  cases hclosed : q.closed with
  | true => exact h
  | false =>
    cases hslot : q.slot with
    | some a => exact h.emptied
    | none =>
      cases cancelled with
      | true => exact h
      | false => exact ⟨by simp, by simp⟩

theorem look (h : q.Orderly) (ticket : Nat) (cancelled : Bool) :
    (q.look ticket cancelled).2.Orderly := by
  unfold WaitQueue.look
  split
  · exact h.of_sublist rfl rfl (.refl _)
  · split
    · exact h
    · split
      · exact h.of_sublist rfl rfl List.filter_sublist
      · exact h

theorem withdraw (h : q.Orderly) (ticket : Nat) : (q.withdraw ticket).1.Orderly := by
  have hleft : ((q.withoutParked ticket).withoutHanded ticket).Orderly :=
    h.of_sublist rfl rfl List.filter_sublist
  unfold WaitQueue.withdraw
  split
  · exact hleft
  · dsimp only
    split
    · next ho => exact hleft.offer ho
    · exact hleft

theorem close (q : WaitQueue α) : q.close.Orderly :=
  ⟨fun _ => rfl, fun _ => rfl⟩

end Orderly

namespace Call

/-- The ticket of a call that waits for an item. -/
def ticket? : Call α → Option Nat
  | taking ticket _ => some ticket
  | putting _ _ => none

/-- The item that a call has in hand while it waits for room. -/
def item? : Call α → Option α
  | taking _ _ => none
  | putting item _ => some item

end Call

/-- The items that a caller has from an answer to one call. -/
def Answer.item? : Answer α → Option α
  | .item a => some a
  | _ => none

/-- The items that callers have from an answer. -/
def Answer.received : Answer α → Multiset α
  | .all answers => ↑(answers.filterMap (·.2.item?))
  | answer => ↑answer.item?.toList

namespace Callers

def slotted (c : Callers α) : Multiset α :=
  ↑c.queue.slot.toList

/-- The items on their way to pending calls. -/
def inTransit (c : Callers α) : Multiset α :=
  ↑(c.pending.filterMap fun p => p.2.ticket?.bind (c.queue.handed.lookup ·))

/-- The items of the calls that wait for room. -/
def blocked (c : Callers α) : Multiset α :=
  ↑(c.pending.filterMap (·.2.item?))

def tickets (c : Callers α) : Multiset Nat :=
  ↑(c.pending.filterMap (·.2.ticket?))

def names (c : Callers α) : Multiset String :=
  ↑(c.pending.map Prod.fst)

/-- Names tell the pending calls apart, a caller that the queue still has to serve waits
with its own ticket, and the queue is orderly. -/
structure Sound (c : Callers α) : Prop where
  names_nodup : c.names.Nodup
  served : c.queue.tickets ≤ c.tickets
  tickets_nodup : c.tickets.Nodup
  issued : ∀ t ∈ c.tickets, t < c.queue.nextTicket
  orderly : c.queue.Orderly

theorem Sound.queue_nodup {c : Callers α} (h : c.Sound) : c.queue.tickets.Nodup :=
  Multiset.nodup_of_le h.served h.tickets_nodup

/-- The pending calls stay as they are when the queue gains or loses an item. -/
theorem Sound.with_queue {c : Callers α} {q : WaitQueue α} (h : c.Sound)
    (htickets : q.tickets ≤ c.queue.tickets) (hnext : q.nextTicket = c.queue.nextTicket)
    (horderly : q.Orderly) : Sound { c with queue := q } where
  names_nodup := h.names_nodup
  served := htickets.trans h.served
  tickets_nodup := h.tickets_nodup
  issued t ht := (h.issued t ht).trans_eq hnext.symm
  orderly := horderly

/-- The items that are in the queue or with a pending call. -/
def stock (c : Callers α) : Multiset α :=
  c.queue.items + c.blocked

/-- Looking every key up among entries with distinct keys finds every entry. -/
theorem filterMap_lookup_keys {β : Type} (l : List (Nat × β)) (hl : (l.map Prod.fst).Nodup) :
    (l.map Prod.fst).filterMap (l.lookup ·) = l.map Prod.snd := by
  induction l with
  | nil => rfl
  | cons p rest ih =>
    obtain ⟨key, b⟩ := p
    simp only [List.map_cons, List.nodup_cons] at hl
    have hrest : (rest.map Prod.fst).filterMap (((key, b) :: rest).lookup ·) =
        (rest.map Prod.fst).filterMap (rest.lookup ·) := by
      apply List.filterMap_congr
      intro k hk
      have hne : (k == key) = false := by
        simpa using fun he : k = key => hl.1 (he ▸ hk)
      simp [List.lookup_cons, hne]
    rw [List.map_cons, List.filterMap_cons_some (b := b) (by simp), hrest, ih hl.2, List.map_cons]

/-- What is in the queue is in its slot or on its way to a pending call. -/
theorem Sound.queue_items {c : Callers α} (h : c.Sound) :
    c.slotted + c.inTransit = c.queue.items := by
  have hkeys : (c.queue.handed.map Prod.fst : Multiset Nat) ≤ c.tickets :=
    (Multiset.coe_le.mpr (List.sublist_append_right ..).subperm).trans h.served
  obtain ⟨others, hothers⟩ := Multiset.le_iff_exists_add.mp hkeys
  have hdisjoint : ∀ t ∈ others, c.queue.handed.lookup t = none := by
    intro t ht
    have hnodup := h.tickets_nodup
    rw [hothers] at hnodup
    have hnot := Multiset.disjoint_right.mp (Multiset.nodup_add.mp hnodup).2.2 ht
    apply List.lookup_eq_none_iff.mpr
    intro p hp
    have : t ≠ p.1 := fun he => hnot (he ▸ List.mem_map_of_mem hp)
    simpa using this
  have htransit : c.inTransit = c.tickets.filterMap (c.queue.handed.lookup ·) := by
    simp only [inTransit, tickets, Multiset.filterMap_coe, List.filterMap_filterMap]
  have hnone : others.filterMap (c.queue.handed.lookup ·) = 0 := by
    apply Multiset.eq_zero_of_forall_notMem
    intro a ha
    obtain ⟨t, ht, hlookup⟩ := (Multiset.mem_filterMap _ _).mp ha
    simp [hdisjoint t ht] at hlookup
  rw [htransit, hothers, Multiset.filterMap_add, hnone, Multiset.filterMap_coe,
    filterMap_lookup_keys _ (handed_nodup h.queue_nodup), add_zero]
  rfl

section Pending

variable {c : Callers α} {name : String} {call : Call α}

theorem forget_of_fresh (h : c.pending.lookup name = none) : c.forget name = c := by
  simp [forget, filter_of_lookup_none h]

theorem pending_perm (h : c.names.Nodup) (hcall : c.pending.lookup name = some call) :
    c.pending.Perm ((name, call) :: (c.forget name).pending) :=
  perm_of_lookup (Multiset.coe_nodup.mp h) hcall

theorem keep_perm (h : c.names.Nodup) (call : Call α) :
    (c.keep name call).pending.Perm ((name, call) :: (c.forget name).pending) := by
  unfold keep
  cases hlookup : c.pending.lookup name with
  | none =>
    have hany : c.pending.any (·.1 == name) = false := by
      rw [List.any_eq_false]
      intro p hp
      have hne := List.lookup_eq_none_iff.mp hlookup p hp
      simpa [Bool.beq_comm] using hne
    rw [forget_of_fresh hlookup]
    simp only [hany, Bool.false_eq_true, if_false]
    exact List.perm_append_singleton _ _
  | some old =>
    have hperm := pending_perm h hlookup
    have hany : c.pending.any (·.1 == name) = true :=
      List.any_eq_true.mpr ⟨(name, old), hperm.mem_iff.mpr (by simp), by simp⟩
    simp only [hany, if_true]
    have hrest : (c.forget name).pending.map (fun p => if p.1 == name then (name, call) else p) =
        (c.forget name).pending := by
      apply List.map_congr_left _ |>.trans (List.map_id _)
      intro p hp
      have : p.1 ≠ name := by simpa using (List.mem_filter.mp hp).2
      simp [this]
    have hkept := hperm.map fun p => if p.1 == name then (name, call) else p
    rw [List.map_cons, hrest] at hkept
    simpa using hkept

/-- What the pending calls hold, told for one call and the others. -/
structure Counts (c base : Callers α) (name : String) (call : Call α) : Prop where
  names : c.names = name ::ₘ base.names
  tickets : c.tickets = ↑call.ticket?.toList + base.tickets
  blocked : c.blocked = ↑call.item?.toList + base.blocked

theorem counts_of_perm {base : Callers α} (h : c.pending.Perm ((name, call) :: base.pending)) :
    Counts c base name call where
  names := Multiset.coe_eq_coe.mpr (h.map Prod.fst)
  tickets := by
    have hperm := h.filterMap (·.2.ticket?)
    cases hticket : call.ticket? <;>
      simpa [Callers.tickets, List.filterMap_cons, hticket] using hperm
  blocked := by
    have hperm := h.filterMap (·.2.item?)
    cases hitem : call.item? <;>
      simpa [Callers.blocked, List.filterMap_cons, hitem] using hperm

theorem counts_pending (h : c.names.Nodup) (hcall : c.pending.lookup name = some call) :
    Counts c (c.forget name) name call :=
  counts_of_perm (pending_perm h hcall)

theorem counts_keep (h : c.names.Nodup) (name : String) (call : Call α) :
    Counts (c.keep name call) (c.forget name) name call :=
  counts_of_perm (keep_perm h call)

theorem queue_keep (c : Callers α) (name : String) (call : Call α) :
    (c.keep name call).queue = c.queue := by
  unfold keep
  split <;> rfl

theorem names_forget (h : c.names.Nodup) (name : String) : name ∉ (c.forget name).names ∧
    (c.forget name).names.Nodup := by
  constructor
  · intro hmem
    obtain ⟨p, hp, rfl⟩ := List.mem_map.mp (Multiset.mem_coe.mp hmem)
    simpa using (List.mem_filter.mp hp).2
  · exact Multiset.coe_nodup.mpr
      ((Multiset.coe_nodup.mp h).sublist (List.filter_sublist.map Prod.fst))

/-- A call that waits for room has no ticket, so the others are sound without it. -/
theorem Sound.forget_putting {item : α} {seen : Nat} (h : c.Sound)
    (hcall : c.pending.lookup name = some (.putting item seen)) : (c.forget name).Sound := by
  have htickets : c.tickets = (c.forget name).tickets := by
    simpa [Call.ticket?] using (counts_pending h.names_nodup hcall).tickets
  exact ⟨(names_forget h.names_nodup _).2, htickets ▸ h.served, htickets ▸ h.tickets_nodup,
    htickets ▸ h.issued, h.orderly⟩

end Pending

/-- From `c` to `c'` the account is kept: `given` came in and `taken` went out. -/
structure Books (c c' : Callers α) (given taken : Multiset α) : Prop where
  sound : c'.Sound
  balance : c.stock + given = c'.stock + taken

theorem Books.refl {c : Callers α} (h : c.Sound) : Books c c 0 0 :=
  ⟨h, rfl⟩

theorem Books.trans {c c' c'' : Callers α} {given given' taken taken' : Multiset α}
    (h : Books c c' given taken) (h' : Books c' c'' given' taken') :
    Books c c'' (given + given') (taken + taken') where
  sound := h'.sound
  balance := by
    rw [← add_assoc, h.balance, add_right_comm, h'.balance]
    abel

section Operations

variable {c : Callers α} {name : String}

/-- The queue took in one item, and the pending calls are as they were. -/
theorem books_offer {q : WaitQueue α} {item : α} (h : c.Sound)
    (hoffer : c.queue.offer item = some q) : Books c { c with queue := q } {item} 0 := by
  obtain ⟨hitems, htickets, hnext⟩ := offer_spec hoffer
  refine ⟨h.with_queue htickets.le hnext (h.orderly.offer hoffer), ?_⟩
  change c.queue.items + c.blocked + {item} = q.items + c.blocked + 0
  rw [hitems, ← Multiset.singleton_add]
  abel

/-- A call that wants to put its item in does so, or waits for room with it. Its name is not
among the other calls. -/
theorem books_tryPut (item : α) (hnames : c.names.Nodup) (h : (c.forget name).Sound) :
    Books (c.forget name) (c.tryPut name item).2 {item} (c.tryPut name item).1.received := by
  unfold tryPut
  cases hoffer : c.queue.offer item with
  | some q => exact books_offer h hoffer
  | none =>
    have hkept := counts_keep hnames name (.putting item c.queue.takes)
    have htickets : (c.keep name (.putting item c.queue.takes)).tickets =
        (c.forget name).tickets := by
      simpa [Call.ticket?] using hkept.tickets
    have hblocked : (c.keep name (.putting item c.queue.takes)).blocked =
        {item} + (c.forget name).blocked := hkept.blocked
    refine ⟨⟨?_, ?_, htickets ▸ h.tickets_nodup, ?_, ?_⟩, ?_⟩
    · rw [hkept.names]
      exact Multiset.nodup_cons.mpr (names_forget hnames name)
    · rw [htickets, queue_keep]
      exact h.served
    · rw [htickets, queue_keep]
      exact h.issued
    · rw [queue_keep]
      exact h.orderly
    · change c.queue.items + (c.forget name).blocked + {item} = _ + 0
      rw [stock, hblocked, queue_keep]
      abel

/-- A caller that asks for an item has it, is refused, or is parked. -/
theorem books_take (h : c.Sound) (hfresh : c.pending.lookup name = none) (token : Option Token) :
    let x := c.settleTake name token (c.queue.take (c.isCancelled token))
    Books c x.2 0 x.1.received := by
  have hspec := take_spec c.queue (c.isCancelled token)
  have horderly := h.orderly.take (c.isCancelled token)
  rcases hx : c.queue.take (c.isCancelled token) with ⟨answer, q⟩
  rw [hx] at hspec horderly
  have hforget : { c with queue := q }.forget name = { c with queue := q } :=
    forget_of_fresh hfresh
  cases answer with
  | item a =>
    obtain ⟨hitems, htickets, hnext⟩ := hspec
    simp only [settleTake, hforget]
    refine ⟨h.with_queue htickets.le hnext horderly, ?_⟩
    change c.queue.items + c.blocked + 0 = q.items + c.blocked + {a}
    rw [hitems, ← Multiset.singleton_add]
    abel
  | failed e =>
    obtain rfl : q = c.queue := hspec
    simp only [settleTake, hforget]
    exact .refl h
  | waiting t =>
    obtain ⟨rfl, hitems, htickets, hnext⟩ := hspec
    have hkept := counts_keep (c := { c with queue := q }) h.names_nodup name
      (.taking c.queue.nextTicket token)
    have hq := queue_keep { c with queue := q } name (.taking c.queue.nextTicket token)
    rw [hforget] at hkept
    have htaking : _ = c.queue.nextTicket ::ₘ c.tickets := hkept.tickets
    have hnew : c.queue.nextTicket ∉ c.tickets := fun hmem => (h.issued _ hmem).false
    simp only [settleTake]
    refine ⟨⟨?_, ?_, ?_, ?_, hq ▸ horderly⟩, ?_⟩
    · have hname := (names_forget h.names_nodup name).1
      rw [forget_of_fresh hfresh] at hname
      rw [hkept.names]
      exact Multiset.nodup_cons.mpr ⟨hname, h.names_nodup⟩
    · rw [hq, htaking]
      exact htickets.trans_le (Multiset.cons_le_cons _ h.served)
    · rw [htaking]
      exact Multiset.nodup_cons.mpr ⟨hnew, h.tickets_nodup⟩
    · intro t ht
      rw [htaking, Multiset.mem_cons] at ht
      rw [hq, hnext]
      rcases ht with rfl | ht
      · exact Nat.lt_succ_self _
      · exact (h.issued t ht).trans (Nat.lt_succ_self _)
    · have hblocked : _ = 0 + c.blocked := hkept.blocked
      change c.queue.items + c.blocked + 0 = _ + 0
      rw [stock, hq, hblocked, hitems, zero_add]

/-- A pending call that stops waiting for an item is forgotten, and its ticket with it. -/
theorem sound_forget_taking {ticket : Nat} {token : Option Token} {q : WaitQueue α} (h : c.Sound)
    (hcall : c.pending.lookup name = some (.taking ticket token))
    (htickets : q.tickets = c.queue.tickets.erase ticket)
    (hnext : q.nextTicket = c.queue.nextTicket) (horderly : q.Orderly) :
    ({ c with queue := q }.forget name).Sound ∧
      ({ c with queue := q }.forget name).stock = q.items + c.blocked := by
  have hcounts := counts_pending h.names_nodup hcall
  have hpending : c.tickets = ticket ::ₘ (c.forget name).tickets := hcounts.tickets
  have hblocked : c.blocked = (c.forget name).blocked := by
    simpa [Call.item?] using hcounts.blocked
  refine ⟨⟨(names_forget h.names_nodup _).2, ?_, ?_, ?_, horderly⟩, ?_⟩
  · change q.tickets ≤ (c.forget name).tickets
    have hserved := Multiset.erase_le_erase ticket h.served
    rw [hpending, Multiset.erase_cons_head] at hserved
    exact htickets.trans_le hserved
  · have hnodup := h.tickets_nodup
    rw [hpending] at hnodup
    exact (Multiset.nodup_cons.mp hnodup).2
  · intro t ht
    have hmem : t ∈ c.tickets := hpending ▸ Multiset.mem_cons_of_mem ht
    exact (h.issued t hmem).trans_eq hnext.symm
  · rw [hblocked]
    rfl

/-- A pending call that looks whether an item has reached it. -/
theorem books_look {ticket : Nat} {token : Option Token} (h : c.Sound)
    (hcall : c.pending.lookup name = some (.taking ticket token)) :
    let x := c.settleTake name token (c.queue.look ticket (c.isCancelled token))
    Books c x.2 0 x.1.received := by
  have hspec := look_spec ticket h.queue_nodup (c.isCancelled token)
  have horderly := h.orderly.look ticket (c.isCancelled token)
  rcases hx : c.queue.look ticket (c.isCancelled token) with ⟨answer, q⟩
  rw [hx] at hspec horderly
  cases answer with
  | item a =>
    obtain ⟨hitems, htickets, hnext⟩ := hspec
    obtain ⟨hsound, hstock⟩ := sound_forget_taking h hcall htickets hnext horderly
    refine ⟨hsound, ?_⟩
    change c.queue.items + c.blocked + 0 = _ + {a}
    rw [settleTake, hstock, hitems, ← Multiset.singleton_add]
    abel
  | failed e =>
    obtain ⟨hitems, htickets, hnext⟩ := hspec
    obtain ⟨hsound, hstock⟩ := sound_forget_taking h hcall htickets hnext horderly
    refine ⟨hsound, ?_⟩
    change c.queue.items + c.blocked + 0 = _ + 0
    rw [settleTake, hstock, hitems]
  | waiting t =>
    obtain ⟨rfl, rfl⟩ := hspec
    have hkept := counts_keep h.names_nodup name (.taking t token)
    have hpending := counts_pending h.names_nodup hcall
    have hq := queue_keep c name (.taking t token)
    have htickets := hkept.tickets.trans hpending.tickets.symm
    simp only [settleTake]
    refine ⟨⟨?_, ?_, htickets ▸ h.tickets_nodup, ?_, hq.symm ▸ h.orderly⟩, ?_⟩
    · exact (hkept.names.trans hpending.names.symm) ▸ h.names_nodup
    · rw [htickets, hq]
      exact h.served
    · rw [htickets, hq]
      exact h.issued
    · change c.queue.items + c.blocked + 0 = _ + 0
      rw [stock, hq, hkept.blocked, ← hpending.blocked]

theorem books_poll (h : c.Sound) (name : String) :
    Books c (c.poll name).2 0 (c.poll name).1.received := by
  unfold poll
  cases hcall : c.pending.lookup name with
  | none => exact .refl h
  | some call =>
    cases call with
    | taking ticket token => exact books_look h hcall
    | putting item seen =>
      simp only [pollCall]
      split
      · exact .refl h
      · have hput := books_tryPut item h.names_nodup (h.forget_putting hcall)
        refine ⟨hput.sound, ?_⟩
        have hblocked : c.blocked = {item} + (c.forget name).blocked :=
          (counts_pending h.names_nodup hcall).blocked
        have hqueue : (c.forget name).queue = c.queue := rfl
        rw [← hput.balance, stock, stock, hblocked, hqueue]
        abel

/-- A poll of one call answers for that call only. -/
theorem received_poll (c : Callers α) (name : String) :
    (c.poll name).1.received = ↑(c.poll name).1.item?.toList := by
  unfold poll
  cases c.pending.lookup name with
  | none => rfl
  | some call =>
    cases call with
    | taking ticket token =>
      simp only [pollCall]
      rcases c.queue.look ticket (c.isCancelled token) with ⟨_ | _ | _, _⟩ <;> rfl
    | putting item seen =>
      simp only [pollCall, tryPut]
      split
      · rfl
      · split <;> rfl

theorem books_pollEach (h : c.Sound) (names : List String) :
    Books c (c.pollEach names).2 0 ((c.pollEach names).1.filterMap (·.2.item?) : Multiset α) := by
  induction names generalizing c with
  | nil => exact .refl h
  | cons name names ih =>
    have hpoll := books_poll h name
    have hboth := hpoll.trans (ih hpoll.sound)
    rw [received_poll] at hboth
    simp only [pollEach, List.filterMap_cons]
    cases hitem : (c.poll name).1.item? <;> simpa [hitem] using hboth

/-- A dropped call passes on the item that is on its way to it, or loses it with a panic. -/
theorem drop_taking {ticket : Nat} {token : Option Token}
    (hcall : c.pending.lookup name = some (.taking ticket token)) :
    (c.drop name).2 = { c with queue := (c.queue.withdraw ticket).1 }.forget name ∧
      (c.drop name).1 = (c.queue.withdraw ticket).2.elim .dropped .panicked := by
  simp only [drop, hcall]
  rcases c.queue.withdraw ticket with ⟨q, _ | p⟩ <;> exact ⟨rfl, rfl⟩

end Operations

/-- A call that starts has a name of its own among the pending ones. -/
def Fresh (c : Callers α) : Step α → Prop
  | .put name _ | .take name _ => c.pending.lookup name = none
  | _ => True

/-- The items that a step puts in: one that is accepted at once, or that a call starts with. -/
def entered (c : Callers α) (s : Step α) : Multiset α :=
  match s, (c.step s).1 with
  | .tryPut item, .put => {item}
  | .put _ item, _ => {item}
  | _, _ => 0

/-- The items that a step gives up: that of a dropped call which waited for room, or the one
on its way to a dropped call that panicked. -/
def forfeited (c : Callers α) : Step α → Multiset α
  | .drop name =>
    match c.pending.lookup name, (c.drop name).1 with
    | some (.putting item _), _ => {item}
    | some (.taking ticket _), .panicked _ => ↑(c.queue.handed.lookup ticket).toList
    | _, _ => 0
  | _ => 0

theorem forfeited_taking {c : Callers α} {name : String} {ticket : Nat} {token : Option Token}
    (hcall : c.pending.lookup name = some (.taking ticket token)) :
    c.forfeited (.drop name) = c.queue.lost ticket := by
  simp only [forfeited, hcall, (drop_taking hcall).2, lost]
  cases (c.queue.withdraw ticket).2 <;> simp

/-- Every step keeps the account, whatever is pending. -/
theorem books_step {c : Callers α} (h : c.Sound) (s : Step α) (hfresh : c.Fresh s) :
    Books c (c.step s).2 (c.entered s) ((c.step s).1.received + c.forfeited s) := by
  cases s with
  | tryPut item =>
    simp only [step, entered]
    cases hoffer : c.queue.offer item with
    | none => exact .refl h
    | some q => exact books_offer h hoffer
  | put name item =>
    have hput := books_tryPut item h.names_nodup
      ((forget_of_fresh hfresh).symm ▸ h)
    rw [forget_of_fresh hfresh] at hput
    simpa [step, entered, forfeited] using hput
  | tryTake =>
    simp only [step]
    cases htake : c.queue.tryTake with
    | none => exact .refl h
    | some x =>
      obtain ⟨a, q⟩ := x
      obtain ⟨hitems, htickets, hnext⟩ := tryTake_spec htake
      refine ⟨h.with_queue htickets.le hnext (h.orderly.tryTake htake), ?_⟩
      change c.queue.items + c.blocked + 0 = q.items + c.blocked + ({a} + 0)
      rw [hitems, ← Multiset.singleton_add]
      abel
  | take name token => simpa [step, entered, forfeited] using books_take h hfresh token
  | poll name => simpa [step, entered, forfeited] using books_poll h name
  | pollAll =>
    simpa [step, entered, forfeited, Answer.received] using
      books_pollEach h (c.pending.map Prod.fst)
  | drop name =>
    cases hcall : c.pending.lookup name with
    | none =>
      have hdrop : c.drop name = (.unknown, c) := by simp [drop, hcall]
      simpa [step, entered, forfeited, hcall, hdrop, Answer.received, Answer.item?] using
        Books.refl h
    | some call =>
      cases call with
      | putting item seen =>
        have hdrop : c.drop name = (.dropped, c.forget name) := by simp [drop, hcall]
        simp only [step, entered, forfeited, hcall, hdrop]
        refine ⟨h.forget_putting hcall, ?_⟩
        have hblocked : c.blocked = {item} + (c.forget name).blocked :=
          (counts_pending h.names_nodup hcall).blocked
        change c.queue.items + c.blocked + 0 =
          c.queue.items + (c.forget name).blocked + (0 + {item})
        rw [hblocked]
        abel
      | taking ticket token =>
        obtain ⟨hstate, hanswer⟩ := drop_taking hcall
        obtain ⟨hitems, htickets, hnext⟩ := withdraw_books ticket h.queue_nodup
        obtain ⟨hsound, hstock⟩ := sound_forget_taking h hcall htickets hnext
          (h.orderly.withdraw ticket)
        have hreceived : (c.step (.drop name)).1.received = 0 := by
          simp only [step, hanswer]
          cases (c.queue.withdraw ticket).2 <;> rfl
        rw [forfeited_taking hcall, hreceived]
        refine ⟨hstate ▸ hsound, ?_⟩
        simp only [step, hstate, hstock]
        change c.queue.items + c.blocked + 0 = _
        rw [hitems]
        abel
  | cancel token => exact ⟨⟨h.1, h.2, h.3, h.4, h.5⟩, rfl⟩
  | close => exact ⟨h.with_queue (tickets_close_le c.queue) rfl (Orderly.close c.queue), rfl⟩

/-- The runs of the callers of a queue, from an empty one or from one with an item: the
calls that each step met, the last step first, and what the steps have come to. -/
inductive Run (initial : Option α) : List (Callers α × Step α) → Callers α → Prop
  | start : Run initial [] { queue := initial.elim {} withItem }
  | step {past : List (Callers α × Step α)} {c : Callers α} (s : Step α) (h : Run initial past c)
      (hs : c.Fresh s) : Run initial ((c, s) :: past) (c.step s).2

def enteredIn (past : List (Callers α × Step α)) : Multiset α :=
  (past.map fun m => m.1.entered m.2).sum

def receivedIn (past : List (Callers α × Step α)) : Multiset α :=
  (past.map fun m => (m.1.step m.2).1.received).sum

def forfeitedIn (past : List (Callers α × Step α)) : Multiset α :=
  (past.map fun m => m.1.forfeited m.2).sum

theorem books_of_run {initial : Option α} {past : List (Callers α × Step α)} {c : Callers α}
    (h : Run initial past c) :
    Books { queue := initial.elim {} withItem } c (enteredIn past)
      (receivedIn past + forfeitedIn past) := by
  induction h with
  | start =>
    have hstart : (initial.elim {} withItem : WaitQueue α).Orderly ∧
        (initial.elim {} withItem : WaitQueue α).tickets = 0 := by
      cases initial <;> exact ⟨⟨fun _ => rfl, fun _ => rfl⟩, rfl⟩
    exact .refl ⟨.nil, hstart.2.le, .nil, by simp [tickets], hstart.1⟩
  | step s h hs ih =>
    have hboth := ih.trans (books_step ih.sound s hs)
    refine ⟨hboth.sound, ?_⟩
    have hbalance := hboth.balance
    simp only [enteredIn, receivedIn, forfeitedIn, List.map_cons, List.sum_cons] at hbalance ⊢
    rw [add_comm (Callers.entered _ _), hbalance]
    abel

/-- A parked ticket is that of a pending dequeue. -/
theorem Sound.of_parked {c : Callers α} (h : c.Sound) {t : Nat} (ht : t ∈ c.queue.parked) :
    ∃ name token, c.pending.lookup name = some (.taking t token) := by
  have hmem : t ∈ c.queue.tickets := by simp [WaitQueue.tickets, ht]
  obtain ⟨⟨name, call⟩, hp, hticket⟩ :=
    List.mem_filterMap.mp (Multiset.mem_coe.mp (Multiset.mem_of_le h.served hmem))
  have hlookup := lookup_of_mem (Multiset.coe_nodup.mp h.names_nodup) hp
  cases call with
  | taking ticket token =>
    cases hticket
    exact ⟨name, token, hlookup⟩
  | putting item seen => cases hticket

/-- A pending dequeue that is dropped panics exactly if its item is on its way to it, no
other pending dequeue is parked and the slot is occupied. -/
theorem drop_panics_iff {c : Callers α} (h : c.Sound) {name : String} {ticket : Nat}
    {token : Option Token} (hcall : c.pending.lookup name = some (.taking ticket token)) :
    (∃ p, (c.drop name).1 = .panicked p) ↔
      (∃ a, c.queue.handed.lookup ticket = some a) ∧
      (∀ other t token, other ≠ name → c.pending.lookup other = some (.taking t token) →
        t ∉ c.queue.parked) ∧
      c.queue.slot.isSome := by
  have hpanic : (∃ p, (c.drop name).1 = .panicked p) ↔ (c.queue.withdraw ticket).2.isSome := by
    rw [(drop_taking hcall).2]
    cases (c.queue.withdraw ticket).2 <;> simp
  rw [hpanic, withdraw_panics_iff, Option.isSome_iff_exists]
  refine and_congr_right fun ⟨a, ha⟩ => and_congr_left fun _ => ?_
  have hself : ticket ∉ c.queue.parked := by
    have hnodup := h.queue_nodup
    rw [tickets_withoutHanded h.queue_nodup ha, Multiset.nodup_cons] at hnodup
    exact fun hmem => hnodup.1 (by simp [WaitQueue.tickets, withoutHanded, hmem])
  constructor
  · intro hall other t _ _ _ ht
    exact hself (hall t ht ▸ ht)
  · intro hothers t ht
    obtain ⟨other, token', hother⟩ := h.of_parked ht
    by_cases hname : other = name
    · rw [hname, hcall] at hother
      cases hother
      rfl
    · exact absurd ht (hothers other t token' hname hother)

/-- On every run the items that were put in are those that were received, that are in the
slot, on their way to a pending dequeue or held by a blocked put, and those given up with a
dropped put or a panicking drop. A drop of a pending dequeue panics exactly if its item is on
its way to it, no other pending dequeue is parked and the slot is occupied. An occupied slot
and a closed queue leave nobody parked. -/
theorem items_conserved {initial : Option α} {past : List (Callers α × Step α)} {c : Callers α}
    (h : Run initial past c) :
    ↑initial.toList + enteredIn past =
      receivedIn past + (c.slotted + c.inTransit + c.blocked) + forfeitedIn past ∧
    (∀ name ticket token, c.pending.lookup name = some (.taking ticket token) →
      ((∃ p, (c.drop name).1 = .panicked p) ↔
        (∃ a, c.queue.handed.lookup ticket = some a) ∧
        (∀ other t token, other ≠ name → c.pending.lookup other = some (.taking t token) →
          t ∉ c.queue.parked) ∧
        c.queue.slot.isSome)) ∧
    (c.queue.slot.isSome → c.queue.parked = []) ∧
    (c.queue.closed = true → c.queue.parked = []) := by
  obtain ⟨hsound, hbalance⟩ := books_of_run h
  refine ⟨?_, fun _ _ _ hcall => drop_panics_iff hsound hcall, hsound.orderly.slot_free,
    hsound.orderly.closed_empty⟩
  have hstart : Callers.stock { queue := (initial.elim {} withItem : WaitQueue α) } =
      ↑initial.toList := by
    cases initial <;> rfl
  rw [hstart] at hbalance
  rw [hbalance, hsound.queue_items, stock]
  abel

/-- A dequeue is parked and served, and a second item comes into the slot: dropping the
dequeue now panics, and nothing is lost so far. -/
theorem items_conserved_served :
    ∃ (past : List (Callers Nat × Step Nat)) (c : Callers Nat), Run none past c ∧
      enteredIn past = receivedIn past + (c.slotted + c.inTransit + c.blocked) +
        forfeitedIn past ∧
      enteredIn past = {2, 1} ∧ c.slotted = {2} ∧ c.inTransit = {1} ∧
      ∃ p, (c.drop "a").1 = .panicked p := by
  have hrun : Run (none : Option Nat) _ _ :=
    ((Run.start.step (.take "a" none) rfl).step (.tryPut 1) trivial).step (.tryPut 2) trivial
  obtain ⟨hbalance, hpanics, -⟩ := items_conserved hrun
  refine ⟨_, _, hrun, by simpa using hbalance, by decide, rfl, rfl, (hpanics "a" 0 none rfl).mpr ?_⟩
  exact ⟨⟨1, rfl⟩, fun _ _ _ _ _ => List.not_mem_nil, rfl⟩

end Callers

end ScriptHost.WaitQueue
