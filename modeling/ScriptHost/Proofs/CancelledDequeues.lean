import ScriptHost.Proofs.ArrivalOrder

/-!
Cancelling a dequeue. A dequeue looks for an item before it looks at its token, so the token
matters only to one that has none: a new one that finds the slot empty, or a parked one that
nothing has reached. Such a dequeue leaves the line, wherever it stands in it, and leaves all
the rest as it was. An item that reaches it while it leaves goes where it would have gone if
it had left before.
-/

namespace ScriptHost.WaitQueue

variable {α : Type} {q : WaitQueue α} {ticket : Nat} {cancelled : Bool}

theorem eq_of_take_cancelled (h : (q.take cancelled).1 = .failed .cancelled) :
    (q.take cancelled).2 = q := by
  unfold take at h ⊢
  cases hclosed : q.closed with
  | true => simp
  | false =>
    cases hslot : q.slot with
    | some a => simp [hclosed, hslot] at h
    | none => cases cancelled <;> simp_all

theorem take_of_slot {a : α} (hopen : q.closed = false) (hslot : q.slot = some a)
    (cancelled : Bool) : q.take cancelled = (.item a, q.emptied) := by
  simp [take, hopen, hslot]

/-- A parked caller fails as cancelled only if nothing has reached it, and then it leaves. -/
theorem look_cancelled (h : (q.look ticket cancelled).1 = .failed .cancelled) :
    cancelled = true ∧ q.handed.lookup ticket = none ∧ ticket ∈ q.parked ∧
      q.look ticket cancelled = (.failed .cancelled, q.withoutParked ticket) := by
  unfold look at h ⊢
  cases hlookup : q.handed.lookup ticket with
  | some a => simp [hlookup] at h
  | none =>
    simp only [hlookup] at h ⊢
    by_cases hparked : ticket ∈ q.parked
    · cases cancelled with
      | true => simp [hparked]
      | false => simp [hparked] at h
    · simp [hparked, ExecutionError.handleQueueClosed] at h

theorem look_of_handed {a : α} (h : q.handed.lookup ticket = some a) (cancelled : Bool) :
    q.look ticket cancelled = (.item a, q.withoutHanded ticket) := by
  simp [look, h]

theorem parked_nodup (hq : q.tickets.Nodup) : q.parked.Nodup :=
  (List.nodup_append.mp (Multiset.coe_nodup.mp hq)).1

/-- A parked caller has one place in the line. -/
theorem split_of_parked (hq : q.tickets.Nodup) (h : ticket ∈ q.parked) :
    ∃ before after, q.parked = before ++ ticket :: after ∧
      (q.withoutParked ticket).parked = before ++ after := by
  obtain ⟨before, after, hsplit⟩ := List.append_of_mem h
  have hnodup := parked_nodup hq
  rw [hsplit, List.nodup_middle, List.nodup_cons, List.mem_append, not_or] at hnodup
  have hkept : ∀ l : List Nat, ticket ∉ l → l.filter (· != ticket) = l := by
    intro l hl
    apply List.filter_eq_self.mpr
    intro t ht
    simpa using fun heq : t = ticket => hl (heq ▸ ht)
  refine ⟨before, after, hsplit, ?_⟩
  simp [withoutParked, hsplit, hkept before hnodup.1.1, hkept after hnodup.1.2]

/-- One who leaves before an item has reached it only gives up its place. -/
theorem withdraw_of_not_handed (h : q.handed.lookup ticket = none) :
    q.withdraw ticket = (q.withoutParked ticket, none) := by
  have hleft : (q.withoutParked ticket).withoutHanded ticket = q.withoutParked ticket := by
    simp only [withoutHanded, withoutParked]
    rw [filter_of_lookup_none h]
  simp only [withdraw, h, hleft]

/-- An item that comes in just before a parked caller leaves is in the end where it is if it
comes in just after. -/
theorem withdraw_of_offered (hq : q.tickets.Nodup) (horderly : q.Orderly)
    (h : ticket ∈ q.parked) (a : α) :
    ∃ q' left, q.offer a = some q' ∧ (q.withoutParked ticket).offer a = some left ∧
      q'.withdraw ticket = (left, none) := by
  have hfree := handed_of_parked hq h
  obtain ⟨head, rest, hparked⟩ := List.exists_cons_of_ne_nil (List.ne_nil_of_mem h)
  have hoffer : q.offer a =
      some { q with parked := rest, handed := q.handed ++ [(head, a)] } := by
    simp [offer, hparked]
  by_cases hhead : head = ticket
  · -- the item has reached the one who leaves, and is passed on
    subst hhead
    have hslot : q.slot = none := by
      by_contra hsome
      rw [horderly.slot_free (Option.isSome_iff_ne_none.mpr hsome)] at hparked
      cases hparked
    have hrest : rest.filter (· != head) = rest := by
      have hnodup := parked_nodup hq
      rw [hparked, List.nodup_cons] at hnodup
      apply List.filter_eq_self.mpr
      intro t ht
      simpa using fun heq : t = head => hnodup.1 (heq ▸ ht)
    have hlookup : (q.handed ++ [(head, a)]).lookup head = some a := by
      simp [List.lookup_append, hfree]
    have hleft : (({ q with parked := rest, handed := q.handed ++ [(head, a)] } :
        WaitQueue α).withoutParked head).withoutHanded head = q.withoutParked head := by
      simp [withoutParked, withoutHanded, hparked, hrest, filter_of_lookup_none hfree]
    obtain ⟨left, hsome⟩ : ∃ left, (q.withoutParked head).offer a = some left := by
      unfold offer withoutParked
      rw [hparked, hslot]
      cases (head :: rest).filter (· != head) <;> simp
    refine ⟨_, left, hoffer, hsome, ?_⟩
    simp only [withdraw, hlookup, hleft, hsome]
  · -- the item has reached another, who stands before the one who leaves
    have hhead' : (head != ticket) = true := by simpa using hhead
    have hlookup : (q.handed ++ [(head, a)]).lookup ticket = none := by
      simp [List.lookup_append, hfree, List.lookup_cons, beq_false_of_ne (Ne.symm hhead)]
    refine ⟨_, _, hoffer, ?_, withdraw_of_not_handed hlookup⟩
    simp [offer, withoutParked, hparked, hhead']

namespace Callers

variable {c : Callers α} {name : String} {token : Option Token}

theorem poll_taking (hcall : c.pending.lookup name = some (.taking ticket token)) :
    c.poll name = c.settleTake name token (c.queue.look ticket (c.isCancelled token)) := by
  simp only [poll, hcall, pollCall]

/-- Only a dequeue ends as cancelled. -/
theorem taking_of_cancelled (h : (c.poll name).1 = .failed .cancelled) :
    ∃ ticket token, c.pending.lookup name = some (.taking ticket token) ∧
      (c.queue.look ticket (c.isCancelled token)).1 = .failed .cancelled := by
  cases hcall : c.pending.lookup name with
  | none => simp [poll, hcall] at h
  | some call =>
    cases call with
    | taking ticket token =>
      refine ⟨ticket, token, rfl, ?_⟩
      rw [poll_taking hcall] at h
      rcases hlook : c.queue.look ticket (c.isCancelled token) with ⟨_ | _ | _, queue⟩ <;>
        rw [hlook] at h <;> simp_all [settleTake]
    | putting item seen =>
      simp only [poll, hcall, pollCall, tryPut] at h
      split at h
      · cases h
      · split at h <;> cases h

/-- A pending dequeue that ends as cancelled was parked, and it alone leaves the line. -/
theorem poll_cancelled (hc : c.Sound) (h : (c.poll name).1 = .failed .cancelled) :
    ∃ ticket token before after, c.pending.lookup name = some (.taking ticket token) ∧
      c.isCancelled token = true ∧ c.queue.handed.lookup ticket = none ∧
      c.queue.parked = before ++ ticket :: after ∧
      (c.poll name).2 = { c with
        queue := { c.queue with parked := before ++ after }
        pending := c.pending.filter (·.1 != name) } := by
  obtain ⟨ticket, token, hcall, hlook⟩ := taking_of_cancelled h
  obtain ⟨htoken, hfree, hparked, hleft⟩ := look_cancelled hlook
  obtain ⟨before, after, hsplit, hwithout⟩ := split_of_parked hc.queue_nodup hparked
  refine ⟨ticket, token, before, after, hcall, htoken, hfree, hsplit, ?_⟩
  rw [poll_taking hcall, hleft, settleTake, forget, ← hwithout]
  rfl

/-- A new dequeue that ends as cancelled has not changed anything. -/
theorem take_cancelled (hfresh : c.pending.lookup name = none)
    (h : (c.step (.take name token)).1 = .failed .cancelled) :
    (c.step (.take name token)).2 = c := by
  have hanswer : (c.queue.take (c.isCancelled token)).1 = .failed .cancelled := by
    simp only [step] at h
    rcases htake : c.queue.take (c.isCancelled token) with ⟨_ | _ | _, queue⟩ <;>
      rw [htake] at h <;> simp_all [settleTake]
  have hqueue := eq_of_take_cancelled hanswer
  simp only [step]
  rcases htake : c.queue.take (c.isCancelled token) with ⟨answer, queue⟩
  rw [htake] at hanswer hqueue
  cases hanswer
  cases hqueue
  exact forget_of_fresh hfresh

/-- A parked dequeue that is dropped just after an item came in leaves the state that it
leaves just before. -/
theorem drop_of_offered (hc : c.Sound)
    (hcall : c.pending.lookup name = some (.taking ticket token))
    (hparked : ticket ∈ c.queue.parked) (a : α) :
    (c.step (.tryPut a)).2.step (.drop name) =
      (.dropped, ((c.step (.drop name)).2.step (.tryPut a)).2) := by
  obtain ⟨q, left, hoffer, hleft, hwithdraw⟩ :=
    withdraw_of_offered hc.queue_nodup hc.orderly hparked a
  have hbefore := withdraw_of_not_handed (handed_of_parked hc.queue_nodup hparked)
  simp only [step, drop, hoffer, hcall, hwithdraw, hbefore, forget, hleft]

/-- A dequeue that ends as cancelled, in whatever state and wherever it stands in the line, takes
only itself away: a new one changes nothing, and a parked one, which nothing is on its way to,
leaves its place in the line and its name among the pending calls. A dequeue that an item has
reached gets it even if its token is cancelled, as does a new one on an open queue with an item
in the slot; and an item that reaches a dequeue on its way out goes where it would have gone
without it. -/
theorem cancellation_local {initial : Option α} {past : List (Callers α × Step α)}
    {c : Callers α} (h : Run initial past c) :
    (∀ name token, c.pending.lookup name = none →
      (c.step (.take name token)).1 = .failed .cancelled → (c.step (.take name token)).2 = c) ∧
    (∀ name, (c.step (.poll name)).1 = .failed .cancelled →
      ∃ ticket token before after, c.pending.lookup name = some (.taking ticket token) ∧
        c.isCancelled token = true ∧ c.queue.handed.lookup ticket = none ∧
        c.queue.parked = before ++ ticket :: after ∧
        (c.step (.poll name)).2 = { c with
          queue := { c.queue with parked := before ++ after }
          pending := c.pending.filter (·.1 != name) }) ∧
    (∀ name ticket token a, c.pending.lookup name = some (.taking ticket token) →
      c.queue.handed.lookup ticket = some a → (c.step (.poll name)).1 = .item a) ∧
    (∀ name token a, c.queue.closed = false → c.queue.slot = some a →
      (c.step (.take name token)).1 = .item a) ∧
    (∀ name ticket token a, c.pending.lookup name = some (.taking ticket token) →
      ticket ∈ c.queue.parked → (c.step (.tryPut a)).2.step (.drop name) =
        (.dropped, ((c.step (.drop name)).2.step (.tryPut a)).2)) := by
  have hc := (books_of_run h).sound
  refine ⟨fun _ _ => take_cancelled, fun _ => poll_cancelled hc, ?_, ?_, ?_⟩
  · intro name ticket token a hcall hhanded
    simp only [step, poll_taking hcall, look_of_handed hhanded, settleTake]
  · intro name token a hopen hslot
    simp only [step, take_of_slot hopen hslot, settleTake]
  · intro name ticket token a hcall hparked
    exact drop_of_offered hc hcall hparked a

/-- Three dequeues are parked, and the token of the second is cancelled when an item has just
been handed to the first: the second leaves from between the others. -/
theorem cancellation_local_between :
    ∃ (past : List (Callers Nat × Step Nat)) (c : Callers Nat), Run none past c ∧
      c.queue.parked = [1, 2] ∧ c.queue.handed = [(0, 7)] ∧
      (c.step (.poll "b")).1 = .failed .cancelled ∧
      (c.step (.poll "b")).2.queue = { c.queue with parked := [2] } ∧
      (c.step (.poll "a")).1 = .item 7 := by
  have hfirst : Run (none : Option Nat) _ _ := Run.start.step (.take "a" (some "t")) rfl
  have hline := (hfirst.step (.take "b" (some "t")) rfl).step (.take "c" none) rfl
  have hrun := (hline.step (.tryPut 7) trivial).step (.cancel "t") trivial
  obtain ⟨-, hpending, hhanded, -⟩ := cancellation_local hrun
  obtain ⟨ticket, token, before, after, hcall, -, -, hsplit, hleft⟩ := hpending "b" rfl
  have hticket : ticket = 1 := by cases hcall; rfl
  refine ⟨_, _, hrun, rfl, rfl, rfl, ?_, hhanded "a" 0 (some "t") 7 rfl rfl⟩
  have hsplit : [1, 2] = before ++ ticket :: after := hsplit
  subst hticket
  obtain ⟨rfl, rfl⟩ : before = [] ∧ after = [2] := by
    cases before with
    | nil => simpa using hsplit.symm
    | cons b rest => cases rest <;> simp at hsplit
  exact congrArg Callers.queue hleft

end Callers

end ScriptHost.WaitQueue
