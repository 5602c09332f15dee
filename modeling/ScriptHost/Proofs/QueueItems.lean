import Mathlib.Data.Multiset.Filter
import ScriptHost.WaitQueue

/-!
What the operations of a hand-off queue do to the items in it and to the tickets it
still has to serve. Items are counted wherever they are, in the slot or on their way to
a caller that has not looked; a ticket counts while its caller is parked or has an item
on its way. Nothing here depends on what the items are.
-/

namespace ScriptHost

section Lookup

variable {κ β : Type} [BEq κ] [LawfulBEq κ] {k : κ} {l : List (κ × β)}

theorem filter_of_lookup_none (h : l.lookup k = none) : l.filter (·.1 != k) = l := by
  apply List.filter_eq_self.mpr
  intro p hp
  have hne := List.lookup_eq_none_iff.mp h p hp
  simpa [bne_comm] using hne

/-- With distinct keys, what a key finds is the only entry under it. -/
theorem split_of_lookup {b : β} (hl : (l.map Prod.fst).Nodup) (h : l.lookup k = some b) :
    ∃ before after, l = before ++ (k, b) :: after ∧
      l.filter (·.1 != k) = before ++ after := by
  induction l with
  | nil => simp at h
  | cons p rest ih =>
    obtain ⟨key, c⟩ := p
    simp only [List.map_cons, List.nodup_cons] at hl
    by_cases hk : k = key
    · subst hk
      have hc : c = b := by simpa [List.lookup_cons] using h
      have hrest : rest.filter (·.1 != k) = rest := by
        apply List.filter_eq_self.mpr
        intro p hp
        have : p.1 ≠ k := fun he => hl.1 (he ▸ List.mem_map_of_mem hp)
        simpa using this
      exact ⟨[], rest, by rw [hc]; rfl, by simp [hrest]⟩
    · have hlookup : rest.lookup k = some b := by
        have hne : (k == key) = false := by simpa using hk
        simpa [List.lookup_cons, hne] using h
      have hkeep : (key != k) = true := by simpa using Ne.symm hk
      obtain ⟨before, after, hrest, hfilter⟩ := ih hl.2 hlookup
      exact ⟨(key, c) :: before, after, by rw [hrest]; rfl, by simp [hkeep, hfilter]⟩

theorem perm_of_lookup {b : β} (hl : (l.map Prod.fst).Nodup) (h : l.lookup k = some b) :
    l.Perm ((k, b) :: l.filter (·.1 != k)) := by
  obtain ⟨before, after, heq, hfilter⟩ := split_of_lookup hl h
  rw [hfilter]
  exact heq ▸ List.perm_middle

theorem mem_of_lookup {b : β} (hl : (l.map Prod.fst).Nodup) (h : l.lookup k = some b) :
    (k, b) ∈ l :=
  (perm_of_lookup hl h).mem_iff.mpr (List.mem_cons_self ..)

/-- With distinct keys, an entry is what its key finds. -/
theorem lookup_of_mem {b : β} (hl : (l.map Prod.fst).Nodup) (h : (k, b) ∈ l) :
    l.lookup k = some b := by
  induction l with
  | nil => simp at h
  | cons p rest ih =>
    obtain ⟨key, c⟩ := p
    simp only [List.map_cons, List.nodup_cons] at hl
    rcases List.mem_cons.mp h with heq | hmem
    · cases heq
      simp
    · have hne : (k == key) = false := by
        simpa using fun he : k = key => hl.1 (he ▸ List.mem_map_of_mem hmem)
      simpa [List.lookup_cons, hne] using ih hl.2 hmem

end Lookup

namespace WaitQueue

variable {α : Type}

def items (q : WaitQueue α) : Multiset α :=
  ↑(q.slot.toList ++ q.handed.map Prod.snd)

def tickets (q : WaitQueue α) : Multiset Nat :=
  ↑(q.parked ++ q.handed.map Prod.fst)

@[simp] theorem items_withItem (a : α) : (withItem a).items = {a} := rfl

@[simp] theorem tickets_withItem (a : α) : (withItem a).tickets = 0 := rfl

@[simp] theorem items_close (q : WaitQueue α) : q.close.items = q.items := rfl

theorem tickets_close_le (q : WaitQueue α) : q.close.tickets ≤ q.tickets := by
  simp only [tickets, close, List.nil_append, Multiset.coe_le]
  exact (List.sublist_append_right q.parked _).subperm

/-- What an accepted offer changes: one item more, and no ticket. -/
theorem offer_spec {q q' : WaitQueue α} {a : α} (h : q.offer a = some q') :
    q'.items = a ::ₘ q.items ∧ q'.tickets = q.tickets ∧ q'.nextTicket = q.nextTicket := by
  unfold offer at h
  split at h
  · next t rest hparked =>
    cases h
    refine ⟨?_, ?_, rfl⟩
    · simp only [items, List.map_append, List.map_cons, List.map_nil, ← List.append_assoc,
        Multiset.cons_coe, Multiset.coe_eq_coe]
      exact List.perm_append_singleton a _
    · simp only [tickets, hparked, List.map_append, List.map_cons, List.map_nil,
        List.cons_append, ← List.append_assoc, Multiset.coe_eq_coe]
      exact List.perm_append_singleton t _
  · next _ hslot =>
    cases h
    exact ⟨by simp [items, hslot], rfl, rfl⟩
  · cases h

theorem offer_isSome (q : WaitQueue α) (a : α) (h : q.items = 0) :
    ∃ q', q.offer a = some q' := by
  have hslot : q.slot = none := by
    simp only [items, Multiset.coe_eq_zero, List.append_eq_nil_iff] at h
    simpa using h.1
  unfold offer
  rw [hslot]
  cases q.parked <;> simp

theorem tryTake_spec {q q' : WaitQueue α} {a : α} (h : q.tryTake = some (a, q')) :
    q.items = a ::ₘ q'.items ∧ q'.tickets = q.tickets ∧ q'.nextTicket = q.nextTicket := by
  unfold tryTake at h
  split at h
  · cases h
  · obtain ⟨b, hslot, hb⟩ := Option.map_eq_some_iff.mp h
    cases hb
    exact ⟨by simp [items, emptied, hslot], rfl, rfl⟩

/-- A new caller takes an item, is refused, or is parked with the next ticket. -/
theorem take_spec (q : WaitQueue α) (cancelled : Bool) :
    match q.take cancelled with
    | (.item a, q') => q.items = a ::ₘ q'.items ∧ q'.tickets = q.tickets ∧
        q'.nextTicket = q.nextTicket
    | (.failed _, q') => q' = q
    | (.waiting t, q') => t = q.nextTicket ∧ q'.items = q.items ∧
        q'.tickets = t ::ₘ q.tickets ∧ q'.nextTicket = t + 1 := by
  unfold take
  cases hclosed : q.closed with
  | true => simp
  | false =>
    cases hslot : q.slot with
    | some a =>
      simp only [Bool.false_eq_true, if_false]
      exact ⟨by simp [items, emptied, hslot], rfl, rfl⟩
    | none =>
      cases cancelled with
      | true => simp
      | false =>
        simp only [Bool.false_eq_true, if_false]
        refine ⟨trivial, by simp [items, hslot], ?_, trivial⟩
        simp only [tickets, Multiset.cons_coe, Multiset.coe_eq_coe]
        exact (List.perm_append_singleton _ _).append_right _

section Tickets

variable {q : WaitQueue α} {ticket : Nat}

theorem handed_nodup (hq : q.tickets.Nodup) : (q.handed.map Prod.fst).Nodup :=
  (List.nodup_append.mp (Multiset.coe_nodup.mp hq)).2.1

theorem items_withoutHanded {a : α} (hq : q.tickets.Nodup)
    (h : q.handed.lookup ticket = some a) :
    q.items = a ::ₘ (q.withoutHanded ticket).items := by
  have hperm := (perm_of_lookup (handed_nodup hq) h).map Prod.snd
  simp only [items, withoutHanded, Multiset.cons_coe, Multiset.coe_eq_coe] at hperm ⊢
  exact (hperm.append_left _).trans List.perm_middle

theorem tickets_withoutHanded {a : α} (hq : q.tickets.Nodup)
    (h : q.handed.lookup ticket = some a) :
    q.tickets = ticket ::ₘ (q.withoutHanded ticket).tickets := by
  have hperm := (perm_of_lookup (handed_nodup hq) h).map Prod.fst
  simp only [tickets, withoutHanded, Multiset.cons_coe, Multiset.coe_eq_coe] at hperm ⊢
  exact (hperm.append_left _).trans List.perm_middle

theorem not_handed (h : q.handed.lookup ticket = none) : ticket ∉ q.handed.map Prod.fst := by
  intro hmem
  obtain ⟨p, hp, rfl⟩ := List.mem_map.mp hmem
  simpa using List.lookup_eq_none_iff.mp h p hp

theorem tickets_withoutParked (hq : q.tickets.Nodup) (h : q.handed.lookup ticket = none) :
    (q.withoutParked ticket).tickets = q.tickets.erase ticket := by
  have hparked : q.parked.Nodup := (List.nodup_append.mp (Multiset.coe_nodup.mp hq)).1
  have hhanded := not_handed h
  simp only [tickets, withoutParked, Multiset.coe_erase, Multiset.coe_eq_coe]
  by_cases hmem : ticket ∈ q.parked
  · rw [List.erase_append_left _ hmem, hparked.erase_eq_filter]
  · rw [List.erase_of_not_mem (by simp [hmem, hhanded])]
    rw [List.filter_eq_self.mpr]
    intro t ht
    have : t ≠ ticket := fun he => hmem (he ▸ ht)
    simpa using this

/-- A caller that looks gets its item, fails, or goes on waiting. Unless it goes on waiting
its ticket is used up. -/
theorem look_spec (ticket : Nat) (hq : q.tickets.Nodup) (cancelled : Bool) :
    match q.look ticket cancelled with
    | (.item a, q') => q.items = a ::ₘ q'.items ∧ q'.tickets = q.tickets.erase ticket ∧
        q'.nextTicket = q.nextTicket
    | (.failed _, q') => q'.items = q.items ∧ q'.tickets = q.tickets.erase ticket ∧
        q'.nextTicket = q.nextTicket
    | (.waiting t, q') => t = ticket ∧ q' = q := by
  unfold look
  cases hlookup : q.handed.lookup ticket with
  | some a =>
    refine ⟨items_withoutHanded hq hlookup, ?_, rfl⟩
    rw [tickets_withoutHanded hq hlookup, Multiset.erase_cons_head]
  | none =>
    by_cases hparked : ticket ∈ q.parked
    · cases cancelled with
      | true =>
        simp only [List.contains_iff_mem.mpr hparked, Bool.not_true]
        exact ⟨rfl, tickets_withoutParked hq hlookup, rfl⟩
      | false =>
        simp only [List.contains_iff_mem.mpr hparked, Bool.not_true]
        exact ⟨rfl, rfl⟩
    · have hcontains : q.parked.contains ticket = false := by simpa using hparked
      simp only [hcontains, Bool.not_false]
      refine ⟨rfl, (Multiset.erase_of_notMem ?_).symm, rfl⟩
      have hhanded := not_handed hlookup
      simp only [tickets, Multiset.mem_coe, List.mem_append]
      tauto

/-- What a caller leaves behind when it goes away, before its item is passed on. -/
theorem withoutParked_withoutHanded {a : α} (hq : q.tickets.Nodup)
    (h : q.handed.lookup ticket = some a) :
    (q.withoutParked ticket).withoutHanded ticket = q.withoutHanded ticket := by
  have htickets := tickets_withoutHanded hq h
  have hnot : ticket ∉ (q.withoutHanded ticket).tickets := by
    rw [htickets, Multiset.nodup_cons] at hq
    exact hq.1
  have hparked : ticket ∉ q.parked := fun hmem => hnot (by
    simp [tickets, withoutHanded, hmem])
  simp only [withoutHanded, withoutParked]
  congr 1
  rw [List.filter_eq_self.mpr]
  intro t ht
  have : t ≠ ticket := fun he => hparked (he ▸ ht)
  simpa using this

/-- The item that is lost when a caller goes away: its own, if nobody has room for it. -/
def lost (q : WaitQueue α) (ticket : Nat) : Multiset α :=
  if (q.withdraw ticket).2.isSome then ↑(q.handed.lookup ticket).toList else 0

/-- A caller that goes away gives its ticket back and passes its item on or loses it. -/
theorem withdraw_books (ticket : Nat) (hq : q.tickets.Nodup) :
    q.items = (q.withdraw ticket).1.items + q.lost ticket ∧
    (q.withdraw ticket).1.tickets = q.tickets.erase ticket ∧
    (q.withdraw ticket).1.nextTicket = q.nextTicket := by
  unfold lost withdraw
  cases hlookup : q.handed.lookup ticket with
  | none =>
    have hleft : ((q.withoutParked ticket).withoutHanded ticket) = q.withoutParked ticket := by
      simp only [withoutHanded, withoutParked]
      rw [filter_of_lookup_none hlookup]
    simp only [hleft]
    exact ⟨by simp [items, withoutParked], tickets_withoutParked hq hlookup, rfl⟩
  | some a =>
    have hitems := items_withoutHanded hq hlookup
    have htickets : (q.withoutHanded ticket).tickets = q.tickets.erase ticket := by
      rw [tickets_withoutHanded hq hlookup, Multiset.erase_cons_head]
    simp only [withoutParked_withoutHanded hq hlookup]
    cases hoffer : (q.withoutHanded ticket).offer a with
    | none => exact ⟨by simp [hitems, Multiset.add_comm _ {a}], htickets, rfl⟩
    | some q' =>
      obtain ⟨hi, ht, hn⟩ := offer_spec hoffer
      exact ⟨by simp [hi, hitems], ht.trans htickets, hn⟩

/-- A caller panics as it goes away exactly if its item is on its way to it, nobody else is
parked and the slot is occupied. -/
theorem withdraw_panics_iff (q : WaitQueue α) (ticket : Nat) :
    (q.withdraw ticket).2.isSome ↔
      (q.handed.lookup ticket).isSome ∧ (∀ t ∈ q.parked, t = ticket) ∧ q.slot.isSome := by
  have hparked : (∀ t ∈ q.parked, t = ticket) ↔ q.parked.filter (· != ticket) = [] := by
    simp [List.filter_eq_nil_iff]
  rw [hparked]
  unfold withdraw
  cases q.handed.lookup ticket with
  | none => simp
  | some a =>
    simp only [withoutHanded, withoutParked, offer]
    cases q.parked.filter (· != ticket) <;> cases q.slot <;> simp

/-- With at most one item in the queue there is room for the item of a caller that goes
away. -/
theorem withdraw_spec (ticket : Nat) (hq : q.tickets.Nodup) (hone : q.items.card ≤ 1) :
    (q.withdraw ticket).1.items = q.items ∧
    (q.withdraw ticket).1.tickets = q.tickets.erase ticket ∧
    (q.withdraw ticket).1.nextTicket = q.nextTicket ∧ (q.withdraw ticket).2 = none := by
  obtain ⟨hitems, htickets, hnext⟩ := withdraw_books ticket hq
  have hnone : (q.withdraw ticket).2 = none := by
    by_contra hpanic
    obtain ⟨hhanded, -, hslot⟩ :=
      (withdraw_panics_iff q ticket).mp (Option.isSome_iff_ne_none.mpr hpanic)
    obtain ⟨a, ha⟩ := Option.isSome_iff_exists.mp hhanded
    obtain ⟨b, hb⟩ := Option.isSome_iff_exists.mp hslot
    rw [items_withoutHanded hq ha, Multiset.card_cons] at hone
    have : b ∈ (q.withoutHanded ticket).items := by simp [items, withoutHanded, hb]
    have := Multiset.card_pos_iff_exists_mem.mpr ⟨b, this⟩
    omega
  refine ⟨?_, htickets, hnext, hnone⟩
  simpa [lost, hnone] using hitems.symm

end Tickets

end WaitQueue

end ScriptHost
