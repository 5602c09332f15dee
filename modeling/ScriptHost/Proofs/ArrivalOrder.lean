import ScriptHost.Proofs.ItemConservation

/-!
The order in which a hand-off queue serves its callers. A dequeue that finds the queue empty
joins a line and leaves it when an item is assigned to it, when it is dropped or cancelled, or
when the queue is closed. Items go to the head of the line: they come out of the slot only
while nobody is in it, whoever puts them in or passes them on.
-/

namespace ScriptHost.WaitQueue

variable {α : Type}

theorem handed_of_parked {q : WaitQueue α} {ticket : Nat} (hq : q.tickets.Nodup)
    (h : ticket ∈ q.parked) : q.handed.lookup ticket = none := by
  have hdisjoint := (List.nodup_append.mp (Multiset.coe_nodup.mp hq)).2.2
  apply List.lookup_eq_none_iff.mpr
  intro p hp
  simpa using hdisjoint ticket h p.1 (List.mem_map_of_mem hp)

/-- An accepted item goes to the head of the line, or into the slot if nobody is in it. -/
theorem offer_line {q q' : WaitQueue α} {a : α} (h : q.offer a = some q') :
    (∃ ticket rest, q.parked = ticket :: rest ∧ q'.parked = rest ∧
      q'.handed = q.handed ++ [(ticket, a)] ∧ q'.slot = q.slot) ∨
    q.parked = [] ∧ q'.parked = [] ∧ q'.handed = q.handed ∧ q'.slot = some a := by
  unfold offer at h
  split at h
  · next ticket rest hparked =>
    cases h
    exact Or.inl ⟨ticket, rest, hparked, rfl, rfl, rfl⟩
  · next hparked _ =>
    cases h
    exact Or.inr ⟨hparked, hparked, rfl, rfl⟩
  · cases h

namespace Callers

/-- The ticket of the call that a step parks, a dequeue that found the queue empty. -/
def parks (c : Callers α) : Step α → Option Nat
  | .take _ token =>
    match (c.queue.take (c.isCancelled token)).1 with
    | .waiting ticket => some ticket
    | _ => none
  | _ => none

/-- A step assigns an item: out of the slot, to the one who asks, or to a parked call. -/
inductive Assigns (c : Callers α) (s : Step α) : Option Nat → α → Prop
  | fromSlot {a : α} (hs : s = .tryTake ∨ ∃ name token, s = .take name token)
      (ha : (c.step s).1 = .item a) : Assigns c s none a
  | handed {ticket : Nat} {a : α} (hbefore : c.queue.handed.lookup ticket = none)
      (hafter : (c.step s).2.queue.handed.lookup ticket = some a) : Assigns c s (some ticket) a

/-- The parked calls of a run by their tickets, the last to arrive first. -/
def arrivals (past : List (Callers α × Step α)) : List Nat :=
  past.filterMap fun m => m.1.parks m.2

/-- What has become of a parked call that does not wait any more. -/
inductive Settled (past : List (Callers α × Step α)) (ticket : Nat) : Prop
  | assigned {c : Callers α} {s : Step α} {a : α} (hm : (c, s) ∈ past)
      (h : Assigns c s (some ticket) a)
  | dropped {c : Callers α} {name : String} {token : Option Token} (hm : (c, .drop name) ∈ past)
      (hcall : c.pending.lookup name = some (.taking ticket token))
  | cancelled {c : Callers α} {name : String} {token : Option Token}
      (hm : (c, .poll name) ∈ past) (hcall : c.pending.lookup name = some (.taking ticket token))
      (ha : (c.poll name).1 = .failed .cancelled)
  | closed {c : Callers α} (hm : (c, .close) ∈ past) (hparked : ticket ∈ c.queue.parked)

theorem Settled.mono {past past' : List (Callers α × Step α)} {ticket : Nat}
    (h : Settled past ticket) (hsub : past ⊆ past') : Settled past' ticket := by
  cases h with
  | assigned hm h => exact .assigned (hsub hm) h
  | dropped hm hcall => exact .dropped (hsub hm) hcall
  | cancelled hm hcall ha => exact .cancelled (hsub hm) hcall ha
  | closed hm hparked => exact .closed (hsub hm) hparked

/-- A call that leaves the line without an item. -/
def Leaves (c : Callers α) (s : Step α) (ticket : Nat) : Prop :=
  ∃ name token, c.pending.lookup name = some (.taking ticket token) ∧
    (s = .drop name ∨ s = .poll name ∧ (c.poll name).1 = .failed .cancelled)

/-- All that a step can do to the line, from `c` to the queue `q`. -/
inductive Advance (c : Callers α) (s : Step α) (q : WaitQueue α) : Prop
  | stays (hparks : c.parks s = none) (hparked : q.parked = c.queue.parked)
      (hhanded : q.handed.Sublist c.queue.handed) (hnext : q.nextTicket = c.queue.nextTicket)
  | joins (hparks : c.parks s = some c.queue.nextTicket)
      (hparked : q.parked = c.queue.parked ++ [c.queue.nextTicket])
      (hhanded : q.handed = c.queue.handed) (hnext : q.nextTicket = c.queue.nextTicket + 1)
  | serves {ticket : Nat} {a : α} (hparks : c.parks s = none)
      (hparked : c.queue.parked = ticket :: q.parked)
      (hfree : c.queue.handed.lookup ticket = none)
      (hhanded : ∃ before, before.Sublist c.queue.handed ∧ q.handed = before ++ [(ticket, a)])
      (hnext : q.nextTicket = c.queue.nextTicket)
  | leaves {ticket : Nat} (hparks : c.parks s = none) (h : c.Leaves s ticket)
      (hparked : q.parked = c.queue.parked.filter (· != ticket))
      (hhanded : q.handed.Sublist c.queue.handed) (hnext : q.nextTicket = c.queue.nextTicket)
  | closes (hs : s = .close) (hparked : q.parked = []) (hhanded : q.handed = c.queue.handed)
      (hnext : q.nextTicket = c.queue.nextTicket)

section Steps

variable {c : Callers α} {s : Step α}

theorem lookup_of_sublist {l l' : List (Nat × α)} {k : Nat} (h : l'.Sublist l)
    (hl : l.lookup k = none) : l'.lookup k = none :=
  List.lookup_eq_none_iff.mpr fun p hp => List.lookup_eq_none_iff.mp hl p (h.subset hp)

/-- An item that is put in goes to the head of the line or into the slot. -/
theorem advance_offer {q : WaitQueue α} {a : α} (h : c.Sound) (hparks : c.parks s = none)
    (hoffer : c.queue.offer a = some q) : Advance c s q := by
  have hnext := (offer_spec hoffer).2.2
  rcases offer_line hoffer with ⟨ticket, rest, hold, hnew, hhanded, -⟩ | ⟨hold, hnew, hhanded, -⟩
  · have hmem : ticket ∈ c.queue.parked := by simp [hold]
    exact .serves hparks (by rw [hold, hnew]) (handed_of_parked h.queue_nodup hmem)
      ⟨_, List.Sublist.refl _, hhanded⟩ hnext
  · exact .stays hparks (hnew.trans hold.symm) (hhanded ▸ List.Sublist.refl _) hnext

theorem advance_tryPut {name : String} {item : α} (h : c.Sound) (hparks : c.parks s = none) :
    Advance c s (c.tryPut name item).2.queue := by
  unfold tryPut
  cases hoffer : c.queue.offer item with
  | none =>
    simp only [queue_keep]
    exact .stays hparks rfl (List.Sublist.refl _) rfl
  | some q => exact advance_offer h hparks hoffer

theorem queue_settleTake (c : Callers α) (name : String) (token : Option Token)
    (x : Taking α × WaitQueue α) : (c.settleTake name token x).2.queue = x.2 := by
  obtain ⟨_ | _ | _, q⟩ := x
  · rfl
  · rfl
  · exact queue_keep _ _ _

/-- A new call takes the slot's item, is refused, or joins the line. -/
theorem advance_take (name : String) (token : Option Token) :
    Advance c (.take name token) (c.step (.take name token)).2.queue := by
  have hparks : c.parks (.take name token) =
      match (c.queue.take (c.isCancelled token)).1 with
      | .waiting ticket => some ticket
      | _ => none := rfl
  rw [step, queue_settleTake]
  revert hparks
  unfold take
  cases c.queue.closed with
  | true => exact fun hparks => .stays hparks rfl (List.Sublist.refl _) rfl
  | false =>
    cases c.queue.slot with
    | some a => exact fun hparks => .stays hparks rfl (List.Sublist.refl _) rfl
    | none =>
      cases c.isCancelled token with
      | true => exact fun hparks => .stays hparks rfl (List.Sublist.refl _) rfl
      | false => exact fun hparks => .joins hparks rfl rfl rfl

/-- A call that is polled gets its item, goes on waiting, or leaves the line if it is
cancelled. -/
theorem advance_look {name : String} {ticket : Nat} {token : Option Token}
    (hcall : c.pending.lookup name = some (.taking ticket token)) :
    Advance c (.poll name) (c.poll name).2.queue := by
  have hanswer : (c.poll name).1 = (c.settleTake name token
      (c.queue.look ticket (c.isCancelled token))).1 := by simp only [poll, hcall, pollCall]
  have hqueue : (c.poll name).2.queue = (c.queue.look ticket (c.isCancelled token)).2 := by
    simp only [poll, hcall, pollCall, queue_settleTake]
  rw [hqueue]
  revert hanswer
  unfold look
  cases c.queue.handed.lookup ticket with
  | some a => exact fun _ => .stays rfl rfl List.filter_sublist rfl
  | none =>
    cases c.queue.parked.contains ticket with
    | false => exact fun _ => .stays rfl rfl (List.Sublist.refl _) rfl
    | true =>
      cases c.isCancelled token with
      | true =>
        exact fun ha => .leaves rfl ⟨name, token, hcall, Or.inr ⟨rfl, ha⟩⟩ rfl
          (List.Sublist.refl _) rfl
      | false => exact fun _ => .stays rfl rfl (List.Sublist.refl _) rfl

/-- A call that is dropped leaves the line, or passes the item on its way to it on to the head
of the line. -/
theorem advance_drop {name : String} {ticket : Nat} {token : Option Token} (h : c.Sound)
    (hcall : c.pending.lookup name = some (.taking ticket token)) :
    Advance c (.drop name) (c.queue.withdraw ticket).1 := by
  have hleaves : c.Leaves (.drop name) ticket := ⟨name, token, hcall, Or.inl rfl⟩
  unfold withdraw
  cases hlookup : c.queue.handed.lookup ticket with
  | none => exact .leaves rfl hleaves rfl List.filter_sublist rfl
  | some a =>
    simp only [withoutParked_withoutHanded h.queue_nodup hlookup]
    cases hoffer : (c.queue.withoutHanded ticket).offer a with
    | none =>
      simp only
      exact .stays rfl rfl List.filter_sublist rfl
    | some q =>
      simp only
      have hnext := (offer_spec hoffer).2.2
      rcases offer_line hoffer with ⟨head, rest, hold, hnew, hhanded, -⟩ | ⟨hold, hnew, hhanded, -⟩
      · have hmem : head ∈ c.queue.parked := by
          change c.queue.parked = head :: rest at hold
          simp [hold]
        exact .serves rfl (by rw [hnew]; exact hold) (handed_of_parked h.queue_nodup hmem)
          ⟨_, List.filter_sublist, hhanded⟩ hnext
      · exact .stays rfl (hnew.trans hold.symm) (by rw [hhanded]; exact List.filter_sublist) hnext

theorem advance_of_step (h : c.Sound) (hs : s ≠ .pollAll) :
    Advance c s (c.step s).2.queue := by
  have hsame : ∀ s, c.parks s = none → Advance c s c.queue := fun s hparks =>
    .stays hparks rfl (List.Sublist.refl _) rfl
  cases s with
  | tryPut item =>
    simp only [step]
    cases hoffer : c.queue.offer item with
    | none => exact hsame _ rfl
    | some q => exact advance_offer h rfl hoffer
  | put name item => exact advance_tryPut h rfl
  | tryTake =>
    simp only [step, tryTake]
    cases c.queue.closed with
    | true => exact hsame _ rfl
    | false =>
      cases c.queue.slot with
      | none => exact hsame _ rfl
      | some a => exact .stays rfl rfl (List.Sublist.refl _) rfl
  | take name token => exact advance_take name token
  | poll name =>
    rw [step]
    cases hcall : c.pending.lookup name with
    | none =>
      simp only [poll, hcall]
      exact hsame _ rfl
    | some call =>
      cases call with
      | taking ticket token => exact advance_look hcall
      | putting item seen =>
        simp only [poll, hcall, pollCall]
        split
        · exact hsame _ rfl
        · exact advance_tryPut h rfl
  | pollAll => exact absurd rfl hs
  | drop name =>
    rw [step]
    cases hcall : c.pending.lookup name with
    | none =>
      simp only [drop, hcall]
      exact hsame _ rfl
    | some call =>
      cases call with
      | putting item seen =>
        simp only [drop, hcall]
        exact hsame _ rfl
      | taking ticket token =>
        rw [(drop_taking hcall).1]
        exact advance_drop h hcall
  | cancel token => exact hsame _ rfl
  | close => exact .closes rfl rfl rfl rfl

/-- An item goes to the head of the line of an open queue, and to nobody else while there is
a line. -/
theorem line_of_assigns (h : c.Sound) (hs : s ≠ .pollAll) {x : Option Nat} {a : α}
    (ha : Assigns c s x a) :
    c.queue.closed = false ∧ (x = none → c.queue.parked = []) ∧
      ∀ ticket ∈ x, c.queue.parked.head? = some ticket := by
  have hopen : ∀ ticket ∈ c.queue.parked, c.queue.closed = false := by
    intro ticket hmem
    cases hclosed : c.queue.closed with
    | false => rfl
    | true => simp [h.orderly.closed_empty hclosed] at hmem
  cases ha with
  | fromSlot hs' ha =>
    have hslot : c.queue.closed = false ∧ c.queue.slot.isSome := by
      rcases hs' with rfl | ⟨name, token, rfl⟩
      · simp only [step, tryTake] at ha
        cases hclosed : c.queue.closed <;> cases hslot : c.queue.slot <;>
          simp_all
      · simp only [step, take] at ha
        cases hclosed : c.queue.closed <;> cases hslot : c.queue.slot <;>
          cases hcancelled : c.isCancelled token <;> simp_all [settleTake]
    exact ⟨hslot.1, fun _ => h.orderly.slot_free hslot.2, by simp⟩
  | @handed ticket a hbefore hafter =>
    have hnot : ¬ (c.step s).2.queue.handed.Sublist c.queue.handed := by
      intro hsub
      rw [lookup_of_sublist hsub hbefore] at hafter
      cases hafter
    cases advance_of_step h hs with
    | stays _ _ hhanded _ => exact absurd hhanded hnot
    | joins _ _ hhanded _ => exact absurd (hhanded ▸ List.Sublist.refl _) hnot
    | leaves _ _ _ hhanded _ => exact absurd hhanded hnot
    | closes _ _ hhanded _ => exact absurd (hhanded ▸ List.Sublist.refl _) hnot
    | @serves head b _ hparked _ hhanded _ =>
      obtain ⟨before, hsub, heq⟩ := hhanded
      have hticket : ticket = head := by
        rw [heq, List.lookup_append, lookup_of_sublist hsub hbefore, Option.none_or] at hafter
        by_contra hne
        simp [List.lookup_cons, beq_false_of_ne hne] at hafter
      subst hticket
      refine ⟨hopen ticket (by simp [hparked]), by simp, ?_⟩
      simp [hparked]

end Steps

/-- Polls of calls one after another, the last one first. -/
def polls (c : Callers α) : List String → List (Callers α × Step α)
  | [] => []
  | name :: names => (c.poll name).2.polls names ++ [(c, .poll name)]

/-- A run in which the polls of all pending calls are steps of their own. -/
def singly (past : List (Callers α × Step α)) : List (Callers α × Step α) :=
  past.flatMap fun
    | (c, .pollAll) => c.polls (c.pending.map Prod.fst)
    | m => [m]

section Runs

variable {initial : Option α} {past : List (Callers α × Step α)} {c : Callers α}

theorem run_polls (h : Run initial past c) (names : List String) :
    Run initial (c.polls names ++ past) (c.pollEach names).2 := by
  induction names generalizing past c with
  | nil => exact h
  | cons name names ih =>
    rw [polls, List.append_assoc]
    exact ih (h.step (.poll name) trivial)

theorem ne_pollAll_of_polls (names : List String) : ∀ m ∈ c.polls names, m.2 ≠ .pollAll := by
  induction names generalizing c with
  | nil => simp [polls]
  | cons name names ih =>
    intro m hm
    rw [polls, List.mem_append, List.mem_singleton] at hm
    rcases hm with hm | rfl
    · exact ih m hm
    · simp

theorem run_singly (h : Run initial past c) :
    Run initial (singly past) c ∧ ∀ m ∈ singly past, m.2 ≠ .pollAll := by
  induction h with
  | start => exact ⟨.start, by simp [singly]⟩
  | @step past c s h hs ih =>
    have hcons : s ≠ .pollAll → singly ((c, s) :: past) = (c, s) :: singly past := by
      cases s <;> simp [singly]
    by_cases hall : s = .pollAll
    · subst hall
      refine ⟨run_polls ih.1 _, ?_⟩
      intro m hm
      rw [singly, List.flatMap_cons, List.mem_append] at hm
      exact hm.elim (ne_pollAll_of_polls _ m) (ih.2 m)
    · rw [hcons hall]
      refine ⟨ih.1.step s hs, ?_⟩
      intro m hm
      rcases List.mem_cons.mp hm with rfl | hm
      · exact hall
      · exact ih.2 m hm

theorem run_before {later earlier : List (Callers α × Step α)} {m : Callers α × Step α}
    (h : Run initial (later ++ m :: earlier) c) : Run initial earlier m.1 := by
  induction later generalizing c with
  | nil =>
    cases h with
    | step s h hs => exact h
  | cons m' later ih =>
    cases h with
    | step s h hs => exact ih h

/-- The line holds, in the order of their arrival, the parked calls that are not settled. -/
structure InLine (past : List (Callers α × Step α)) (c : Callers α) : Prop where
  ordered : (arrivals past).Pairwise (· > ·)
  issued : ∀ ticket ∈ arrivals past, ticket < c.queue.nextTicket
  parked : c.queue.parked.Sublist (arrivals past).reverse
  settled : ∀ ticket ∈ arrivals past, ticket ∈ c.queue.parked ∨ Settled past ticket

theorem arrivals_cons (c : Callers α) (s : Step α) (past : List (Callers α × Step α)) :
    arrivals ((c, s) :: past) = (c.parks s).toList ++ arrivals past := by
  unfold arrivals
  cases hparks : c.parks s <;> simp [hparks]

/-- Calls leave the line, each for a reason, and nobody joins it. -/
theorem InLine.of_left (h : InLine past c) {s : Step α} (hparks : c.parks s = none)
    (hsub : (c.step s).2.queue.parked.Sublist c.queue.parked)
    (hnext : (c.step s).2.queue.nextTicket = c.queue.nextTicket)
    (hgone : ∀ ticket ∈ c.queue.parked, ticket ∉ (c.step s).2.queue.parked →
      Settled ((c, s) :: past) ticket) : InLine ((c, s) :: past) (c.step s).2 := by
  have harrivals : arrivals ((c, s) :: past) = arrivals past := by
    rw [arrivals_cons, hparks]
    rfl
  refine ⟨?_, ?_, ?_, ?_⟩
  · rw [harrivals]
    exact h.ordered
  · rw [harrivals, hnext]
    exact h.issued
  · rw [harrivals]
    exact hsub.trans h.parked
  · rw [harrivals]
    intro ticket hmem
    by_cases hin : ticket ∈ (c.step s).2.queue.parked
    · exact Or.inl hin
    · refine Or.inr ?_
      rcases h.settled ticket hmem with hparked | hsettled
      · exact hgone ticket hparked hin
      · exact hsettled.mono (List.subset_cons_self _ _)

theorem InLine.joins (h : InLine past c) {s : Step α}
    (hparks : c.parks s = some c.queue.nextTicket)
    (hparked : (c.step s).2.queue.parked = c.queue.parked ++ [c.queue.nextTicket])
    (hnext : (c.step s).2.queue.nextTicket = c.queue.nextTicket + 1) :
    InLine ((c, s) :: past) (c.step s).2 := by
  have harrivals : arrivals ((c, s) :: past) = c.queue.nextTicket :: arrivals past := by
    rw [arrivals_cons, hparks]
    rfl
  refine ⟨?_, ?_, ?_, ?_⟩
  · rw [harrivals]
    exact List.pairwise_cons.mpr ⟨h.issued, h.ordered⟩
  · rw [harrivals, hnext]
    intro ticket hmem
    rcases List.mem_cons.mp hmem with rfl | hmem
    · exact Nat.lt_succ_self _
    · exact Nat.lt_succ_of_lt (h.issued ticket hmem)
  · rw [harrivals, hparked, List.reverse_cons]
    exact h.parked.append (List.Sublist.refl _)
  · rw [harrivals, hparked]
    intro ticket hmem
    rcases List.mem_cons.mp hmem with rfl | hmem
    · exact Or.inl (by simp)
    · refine (h.settled ticket hmem).imp (fun hin => List.mem_append_left _ hin) ?_
      exact fun hsettled => hsettled.mono (List.subset_cons_self _ _)

theorem InLine.advance (h : InLine past c) {s : Step α}
    (hadvance : Advance c s (c.step s).2.queue) : InLine ((c, s) :: past) (c.step s).2 := by
  have hself : (c, s) ∈ (c, s) :: past := List.mem_cons_self
  cases hadvance with
  | stays hparks hparked _ hnext =>
    refine h.of_left hparks (hparked ▸ List.Sublist.refl _) hnext ?_
    exact fun ticket hold hnew => absurd (hparked ▸ hold) hnew
  | joins hparks hparked _ hnext => exact h.joins hparks hparked hnext
  | @serves ticket a hparks hparked hfree hhanded hnext =>
    refine h.of_left hparks (hparked ▸ List.sublist_cons_self _ _) hnext ?_
    intro ticket' hold hnew
    rw [hparked] at hold
    obtain rfl : ticket' = ticket := (List.mem_cons.mp hold).resolve_right hnew
    obtain ⟨before, hsub, heq⟩ := hhanded
    refine .assigned hself (.handed (a := a) hfree ?_)
    rw [heq, List.lookup_append, lookup_of_sublist hsub hfree]
    simp
  | @leaves ticket hparks hleaves hparked _ hnext =>
    refine h.of_left hparks (hparked ▸ List.filter_sublist) hnext ?_
    intro ticket' hold hnew
    obtain rfl : ticket' = ticket := by
      by_contra hne
      exact hnew (hparked ▸ List.mem_filter.mpr ⟨hold, by simpa using hne⟩)
    obtain ⟨name, token, hcall, rfl | ⟨rfl, ha⟩⟩ := hleaves
    · exact .dropped hself hcall
    · exact .cancelled hself hcall ha
  | closes hs hparked _ hnext =>
    subst hs
    refine h.of_left rfl (hparked ▸ List.nil_sublist _) hnext ?_
    exact fun ticket hold _ => .closed hself hold

theorem inLine_of_run (h : Run initial past c) (hs : ∀ m ∈ past, m.2 ≠ .pollAll) :
    InLine past c := by
  induction h with
  | start =>
    refine ⟨.nil, by simp [arrivals], ?_, by simp [arrivals]⟩
    cases initial <;> exact List.Sublist.refl _
  | @step past c s h hfresh ih =>
    have hadvance := advance_of_step (books_of_run h).sound (hs (c, s) List.mem_cons_self)
    exact (ih fun m hm => hs m (List.mem_cons_of_mem _ hm)).advance hadvance

end Runs

/-- Whenever an item is assigned, out of the slot or to a parked call, the queue is open and
every call that was parked before the one who gets it is settled: an item was assigned to it,
it was dropped, or it was cancelled. Out of the slot an item is taken only while nobody is
parked, and a parked call gets one only as the head of the line. -/
theorem served_in_order {initial : Option α} {past : List (Callers α × Step α)}
    {c : Callers α} (h : Run initial past c) {later earlier : List (Callers α × Step α)}
    {c' : Callers α} {s : Step α} (hpast : singly past = later ++ (c', s) :: earlier)
    {x : Option Nat} {a : α} (ha : Assigns c' s x a) :
    c'.queue.closed = false ∧ (x = none → c'.queue.parked = []) ∧
    (∀ ticket ∈ x, ticket ∈ arrivals earlier ∧ c'.queue.parked.head? = some ticket) ∧
    ∀ younger older, arrivals earlier = younger ++ x.toList ++ older →
      ∀ ticket ∈ older, Settled earlier ticket := by
  obtain ⟨hrun, hsingly⟩ := run_singly h
  rw [hpast] at hrun hsingly
  have hbefore := run_before hrun
  have hline := inLine_of_run hbefore fun m hm => hsingly m (by simp [hm])
  obtain ⟨hopen, hslot, hhead⟩ :=
    line_of_assigns (books_of_run hbefore).sound (hsingly (c', s) (by simp)) ha
  refine ⟨hopen, hslot, fun ticket hx => ⟨?_, hhead ticket hx⟩, ?_⟩
  · exact List.mem_reverse.mp (hline.parked.subset (List.mem_of_mem_head? (hhead ticket hx)))
  · intro younger older harrivals ticket hmem
    have harrived : ticket ∈ arrivals earlier := by simp [harrivals, hmem]
    refine (hline.settled ticket harrived).resolve_left fun hparked => ?_
    cases x with
    | none =>
      rw [hslot rfl] at hparked
      cases hparked
    | some head =>
      have hlt : ticket < head := by
        have hordered := hline.ordered
        rw [harrivals, List.append_assoc] at hordered
        exact List.rel_of_pairwise_cons (List.pairwise_append.mp hordered).2.1 hmem
      have hordered : c'.queue.parked.Pairwise (· < ·) :=
        (List.pairwise_reverse.mpr hline.ordered).sublist hline.parked
      obtain ⟨rest, hrest⟩ := List.head?_eq_some_iff.mp (hhead head rfl)
      rw [hrest] at hordered hparked
      rcases List.mem_cons.mp hparked with heq | hin
      · omega
      · have := List.rel_of_pairwise_cons hordered hin
        omega

/-- Two dequeues are parked and the first one is served: when it is dropped, its item goes to
the second, and nobody else waited longer. -/
theorem served_in_order_passed_on :
    ∃ (past : List (Callers Nat × Step Nat)) (c : Callers Nat), Run none past c ∧
      Assigns c (.drop "a") (some 1) 1 ∧ c.queue.parked.head? = some 1 ∧ Settled past 0 := by
  have hfirst : Run (none : Option Nat) _ _ := Run.start.step (.take "a" none) rfl
  have hrun := (hfirst.step (.take "b" none) rfl).step (.tryPut 1) trivial
  obtain ⟨-, -, hhead, hsettled⟩ :=
    served_in_order (hrun.step (.drop "a") trivial) (show _ = [] ++ _ :: _ from rfl)
      (@Assigns.handed Nat _ _ 1 1 rfl rfl)
  exact ⟨_, _, hrun, .handed rfl rfl, (hhead 1 rfl).2, hsettled [] [0] rfl 0 (by simp)⟩

end Callers

end ScriptHost.WaitQueue
