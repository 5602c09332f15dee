import ScriptHost.Proofs.QueueBeats

/-!
The calls that wait for room in a hand-off queue. Such a call found the queue full: its slot was
occupied and nobody was parked. A full queue stays full until an item is taken from its slot,
and every take is announced to all who listen. So a call that has not heard an announcement
finds the queue as full as it left it, unless a take was not announced yet, and one that has
heard one tries again as soon as it is polled.
-/

namespace ScriptHost.WaitQueue

variable {α : Type}

/-- The slot is occupied, and nobody is parked who could be handed an item. -/
structure Full (q : WaitQueue α) : Prop where
  occupied : q.slot.isSome
  unparked : q.parked = []

/-- From `q` to `q'` takes are counted, and a full queue stays full as long as there is none. -/
structure Onward (q q' : WaitQueue α) : Prop where
  takes_le : q.takes ≤ q'.takes
  full : q.Full → q'.takes = q.takes → q'.Full

section Queues

variable {q q' : WaitQueue α} {a : α}

theorem offer_eq_none_iff : q.offer a = none ↔ q.Full := by
  constructor
  · intro h
    unfold offer at h
    split at h
    · cases h
    · cases h
    · next hparked hslot => exact ⟨by simp [hslot], hparked⟩
  · rintro ⟨hslot, hparked⟩
    obtain ⟨b, hb⟩ := Option.isSome_iff_exists.mp hslot
    simp [offer, hparked, hb]

/-- There is room for an item in the slot or with a parked call. -/
theorem not_full_of_room (h : q.slot = none ∨ q.parked ≠ []) : ¬ q.Full := by
  rintro ⟨hslot, hparked⟩
  rcases h with h | h
  · simp [h] at hslot
  · exact h hparked

theorem offer_of_not_full (a : α) (h : ¬ q.Full) : ∃ q', q.offer a = some q' :=
  Option.ne_none_iff_exists'.mp (mt offer_eq_none_iff.mp h)

theorem Onward.refl (q : WaitQueue α) : Onward q q :=
  ⟨le_rfl, fun h _ => h⟩

/-- Callers leave, and the slot and the count of takes are as they were. -/
theorem onward_of_left (hslot : q'.slot = q.slot) (htakes : q'.takes = q.takes)
    (hparked : q'.parked.Sublist q.parked) : Onward q q' where
  takes_le := htakes.ge
  full h _ := ⟨hslot ▸ h.occupied, List.sublist_nil.mp (h.unparked ▸ hparked)⟩

/-- What needs a queue that is not full. -/
theorem onward_of_not_full (h : ¬ q.Full) (htakes : q'.takes = q.takes) : Onward q q' :=
  ⟨htakes.ge, fun hfull => absurd hfull h⟩

theorem onward_of_taken (htakes : q'.takes = q.takes + 1) : Onward q q' :=
  ⟨by omega, fun _ _ => by omega⟩

theorem onward_offer (h : q.offer a = some q') : Onward q q' :=
  onward_of_not_full (fun hfull => by simp [offer_eq_none_iff.mpr hfull] at h) (takes_offer h)

theorem onward_take (q : WaitQueue α) (cancelled : Bool) : Onward q (q.take cancelled).2 := by
  have htakes := takes_take q cancelled
  revert htakes
  unfold take
  cases q.closed with
  | true => exact fun _ => .refl q
  | false =>
    cases hslot : q.slot with
    | some a => exact fun htakes => onward_of_taken htakes
    | none =>
      cases cancelled with
      | true => exact fun _ => .refl q
      | false => exact fun htakes => onward_of_not_full (not_full_of_room (.inl hslot)) htakes

theorem onward_look (q : WaitQueue α) (ticket : Nat) (cancelled : Bool) :
    Onward q (q.look ticket cancelled).2 := by
  unfold look
  split
  · exact onward_of_left rfl rfl (.refl _)
  · split
    · exact .refl q
    · split
      · exact onward_of_left rfl rfl List.filter_sublist
      · exact .refl q

theorem onward_withdraw (q : WaitQueue α) (ticket : Nat) : Onward q (q.withdraw ticket).1 := by
  have hleft : Onward q ((q.withoutParked ticket).withoutHanded ticket) :=
    onward_of_left rfl rfl List.filter_sublist
  unfold withdraw
  split
  · exact hleft
  · dsimp only
    split
    · next hoffer =>
      have hpassed := onward_offer hoffer
      exact ⟨hleft.takes_le.trans hpassed.takes_le,
        fun hfull htakes => hpassed.full (hleft.full hfull rfl) htakes⟩
    · exact hleft

theorem onward_close (q : WaitQueue α) : Onward q q.close :=
  onward_of_left rfl rfl (List.nil_sublist _)

end Queues

/-- Something that is `p` has happened since the last that is `q`. The last comes first. -/
def SinceLast {β : Type} (q : β → Bool) (p : β → Prop) (past : List β) : Prop :=
  ∃ m ∈ past.takeWhile fun m => !q m, p m

/-- A count that was `heard` when the last `q` happened, and that every `p` moves on. -/
structure Marked {β : Type} (q : β → Bool) (p : β → Prop) (past : List β)
    (count heard : Nat) : Prop where
  heard_le : heard ≤ count
  ne_iff : count ≠ heard ↔ SinceLast q p past

section Marks

variable {β : Type} {q : β → Bool} {p : β → Prop} {past : List β} {m : β} {count heard : Nat}

theorem sinceLast_cons :
    SinceLast q p (m :: past) ↔ q m = false ∧ (p m ∨ SinceLast q p past) := by
  unfold SinceLast
  cases h : q m <;> simp [h]

theorem Marked.again (h : q m = true) (count : Nat) : Marked q p (m :: past) count count :=
  ⟨le_rfl, by simp [sinceLast_cons, h]⟩

theorem Marked.later (h : Marked q p past count heard) (hq : q m = false) {count' : Nat}
    (hcount : count' = count + 1 ∧ p m ∨ count' = count ∧ ¬ p m) :
    Marked q p (m :: past) count' heard := by
  obtain ⟨hle, hiff⟩ := h
  rcases hcount with ⟨rfl, hp⟩ | ⟨rfl, hp⟩
  · exact ⟨by omega, iff_of_true (by omega) (sinceLast_cons.mpr ⟨hq, .inl hp⟩)⟩
  · exact ⟨hle, by simp [sinceLast_cons, hq, hp, ← hiff]⟩

end Marks

namespace Stage

/-- When a call that puts its item in began to listen. -/
def heard? : Stage α → Option Nat
  | trying _ heard | blocked _ heard => some heard
  | _ => none

def isBlocked : Stage α → Bool
  | blocked _ _ => true
  | _ => false

end Stage

namespace Threads

variable {t : Threads α} {b : Beat α} {name other : String} {item : α} {heard : Nat}

/-- A put starts, or is polled while it is blocked. -/
def polled (name : String) (m : Threads α × Beat α) : Bool :=
  match m.2 with
  | .put other _ => other == name
  | .go other => other == name && (m.1.stage name).any Stage.isBlocked
  | _ => false

def Announces (m : Threads α × Beat α) : Prop :=
  m.2 = .announce ∧ m.1.announced < m.1.queue.takes

/-- A take was announced since the put began to listen. A poll of a put that has heard nothing
changes nothing, so it makes no difference whether that counts as listening anew. -/
def Notified (name : String) (past : History α) : Prop :=
  SinceLast (polled name) Announces past

theorem onward_next (t : Threads α) (name : String) (s : Stage α) :
    Onward t.queue (t.next name s).queue := by
  cases s with
  | trying item heard =>
    simp only [next]
    split
    · next hoffer => exact onward_offer hoffer
    · exact .refl _
  | blocked item heard =>
    simp only [next]
    split <;> exact .refl _
  | waiting ticket token =>
    have hlook := onward_look t.queue ticket false
    simp only [next]
    split
    · exact .refl _
    · next hq =>
      rw [hq] at hlook
      exact hlook
  | unserved ticket token => exact .refl _
  | leaving ticket => exact onward_withdraw ..

theorem onward_drop (t : Threads α) (name : String) (s : Stage α) :
    Onward t.queue (t.drop name s).queue := by
  cases s with
  | waiting ticket token => exact onward_withdraw ..
  | trying | blocked | unserved | leaving => exact .refl _

theorem onward_of_beat (t : Threads α) (b : Beat α) : Onward t.queue (t.beat b).queue := by
  cases b with
  | tryPut item =>
    simp only [beat]
    cases hoffer : t.queue.offer item with
    | none => exact .refl _
    | some q => exact onward_offer hoffer
  | tryTake =>
    simp only [beat]
    cases htake : t.queue.tryTake with
    | none => exact .refl _
    | some x => exact onward_of_taken (takes_tryTake (a := x.1) htake)
  | take name token =>
    have htake := onward_take t.queue (t.isCancelled token)
    simp only [beat]
    rcases hq : t.queue.take (t.isCancelled token) with ⟨_ | _ | _, queue⟩ <;>
      rw [hq] at htake <;> exact htake
  | announce =>
    simp only [beat, announce]
    split <;> exact .refl _
  | go name =>
    simp only [beat]
    cases t.stage name with
    | none => exact .refl _
    | some s => exact onward_next t name s
  | drop name =>
    simp only [beat]
    cases t.stage name with
    | none => exact .refl _
    | some s => exact onward_drop t name s
  | put | cancel => exact .refl _
  | close => exact onward_close _

theorem announced_next (t : Threads α) (name : String) (s : Stage α) :
    (t.next name s).announced = t.announced := by
  cases s with
  | trying | blocked | waiting =>
    simp only [next]
    split <;> rfl
  | unserved | leaving => rfl

theorem announced_drop (t : Threads α) (name : String) (s : Stage α) :
    (t.drop name s).announced = t.announced := by
  cases s <;> rfl

theorem announced_of_beat (t : Threads α) (b : Beat α) :
    (t.beat b).announced = t.announced + 1 ∧ Announces (t, b) ∨
      (t.beat b).announced = t.announced ∧ ¬ Announces (t, b) := by
  cases b with
  | announce =>
    simp only [beat, announce, Announces, true_and]
    split
    · next h => exact .inl ⟨rfl, h⟩
    · next h => exact .inr ⟨rfl, h⟩
  | take name token =>
    refine .inr ⟨?_, by simp [Announces]⟩
    simp only [beat]
    split <;> rfl
  | go name =>
    refine .inr ⟨?_, by simp [Announces]⟩
    cases hs : t.stage name <;> simp [beat, hs, announced_next]
  | drop name =>
    refine .inr ⟨?_, by simp [Announces]⟩
    cases hs : t.stage name <;> simp [beat, hs, announced_drop]
  | tryPut | put | tryTake | cancel | close => exact .inr ⟨rfl, by simp [Announces]⟩

theorem stage_next_ne (h : name ≠ other) (s : Stage α) :
    (t.next other s).stage name = t.stage name := by
  cases s with
  | trying | blocked | waiting =>
    simp only [next]
    split <;> simp [stage_setStage_ne _ _ _ h]
  | unserved | leaving => exact stage_setStage_ne _ _ _ h

theorem stage_of_drop {s s' : Stage α} (h : (t.drop other s').stage name = some s) :
    t.stage name = some s := by
  have hgone : ∀ t' : Threads α, t'.stage = t.stage →
      (t'.setStage other none).stage name = some s → t.stage name = some s := by
    intro t' hstage hs
    by_cases hname : name = other
    · simp [hname] at hs
    · rwa [stage_setStage_ne _ _ _ hname, hstage] at hs
  cases s' with
  | blocked | waiting => exact hgone _ rfl h
  | trying | unserved | leaving => exact h

/-- All that can become of a put in a beat, if it is still there. -/
inductive Puts (t : Threads α) (b : Beat α) (name : String) : Stage α → Prop
  | same {s : Stage α} (hpolls : polled name (t, b) = false) (h : t.stage name = some s) :
      Puts t b name s
  | listens {item : α} (hpolls : polled name (t, b) = true) :
      Puts t b name (.trying item t.announced)
  | unheard {item : α} (hpolls : polled name (t, b) = true)
      (h : t.stage name = some (.blocked item t.announced)) :
      Puts t b name (.blocked item t.announced)
  | refused {item : α} {heard : Nat} (hpolls : polled name (t, b) = false)
      (h : t.stage name = some (.trying item heard)) (hfull : t.queue.Full)
      (hqueue : (t.beat b).queue = t.queue) : Puts t b name (.blocked item heard)

/-- What a put does next. -/
theorem puts_of_next {s s' : Stage α} (h : t.stage name = some s)
    (hnext : (t.next name s).stage name = some s') (hheard : s'.heard? = some heard) :
    Puts t (.go name) name s' := by
  have hqueue : (t.beat (.go name)).queue = (t.next name s).queue := by rw [beat_go h]
  have hpolls : polled name (t, .go name) = s.isBlocked := by simp [polled, h]
  cases s with
  | trying item heard =>
    simp only [next] at hnext hqueue
    cases hoffer : t.queue.offer item with
    | some q => simp [hoffer] at hnext
    | none =>
      rw [hoffer] at hnext hqueue
      obtain rfl : Stage.blocked item heard = s' := by simpa using hnext
      exact .refused hpolls h (offer_eq_none_iff.mp hoffer) hqueue
  | blocked item heard =>
    simp only [next] at hnext
    split at hnext
    · next heq =>
      subst heq
      obtain rfl : Stage.blocked item t.announced = s' := by simpa [h] using hnext
      exact .unheard hpolls h
    · obtain rfl : Stage.trying item t.announced = s' := by simpa using hnext
      exact .listens hpolls
  | waiting ticket token =>
    simp only [next] at hnext
    split at hnext
    · obtain rfl : Stage.unserved ticket token = s' := by simpa using hnext
      cases hheard
    · simp at hnext
  | unserved ticket token =>
    simp only [next, stage_setStage, Option.some.injEq] at hnext
    subst hnext
    split at hheard <;> cases hheard
  | leaving ticket => simp [next, withdraw] at hnext

theorem puts_of_beat {s : Stage α} (h : (t.beat b).stage name = some s)
    (hheard : s.heard? = some heard) : Puts t b name s := by
  cases b with
  | tryPut | tryTake | cancel | close => exact .same rfl h
  | announce =>
    refine .same rfl ?_
    simp only [beat, announce] at h
    split at h <;> exact h
  | put other item =>
    by_cases hname : name = other
    · subst hname
      obtain rfl : Stage.trying item t.announced = s := by simpa [beat] using h
      exact .listens (by simp [polled])
    · rw [beat, stage_setStage_ne _ _ _ hname] at h
      exact .same (by simp [polled, Ne.symm hname]) h
  | take other token =>
    refine .same rfl ?_
    simp only [beat] at h
    split at h
    · by_cases hname : name = other
      · subst hname
        rw [stage_setStage] at h
        cases h
        cases hheard
      · rwa [stage_setStage_ne _ _ _ hname] at h
    · exact h
  | go other =>
    by_cases hname : name = other
    · subst hname
      cases hs : t.stage name with
      | none => simp [beat_go_none hs, hs] at h
      | some s' =>
        rw [beat_go hs] at h
        exact puts_of_next hs h hheard
    · refine .same (by simp [polled, Ne.symm hname]) ?_
      cases hs : t.stage other with
      | none => rwa [beat_go_none hs] at h
      | some s' => rwa [beat_go hs, stage_next_ne hname] at h
  | drop other =>
    refine .same rfl ?_
    cases hs : t.stage other with
    | none => simpa [beat, hs] using h
    | some s' =>
      simp only [beat, hs, Option.elim_some] at h
      exact stage_of_drop h

/-- Every put knows how much was announced since it began to listen. One that is blocked and has
heard of everything finds the queue full, unless a take is not announced yet. -/
structure Attentive (past : History α) (t : Threads α) : Prop where
  announced_le : t.announced ≤ t.queue.takes
  marked : ∀ name s heard, t.stage name = some s → s.heard? = some heard →
    Marked (polled name) Announces past t.announced heard
  full : ∀ name item heard, t.stage name = some (.blocked item heard) → t.announced = heard →
    t.queue.Full ∨ t.announced < t.queue.takes

theorem Attentive.marked_beat {past : History α} (h : Attentive past t) {s : Stage α}
    (hs : (t.beat b).stage name = some s) (hheard : s.heard? = some heard) :
    Marked (polled name) Announces ((t, b) :: past) (t.beat b).announced heard := by
  have hannounced := announced_of_beat t b
  have hquiet : polled name (t, b) = true → (t.beat b).announced = t.announced := by
    intro hpolls
    refine (hannounced.resolve_left fun hann => ?_).1
    obtain ⟨rfl, -⟩ : b = .announce ∧ _ := hann.2
    cases hpolls
  cases puts_of_beat hs hheard with
  | same hpolls hold => exact (h.marked name s heard hold hheard).later hpolls hannounced
  | listens hpolls | unheard hpolls hold =>
    cases hheard
    rw [hquiet hpolls]
    exact .again hpolls _
  | refused hpolls hold hfull hqueue =>
    exact (h.marked name _ heard hold hheard).later hpolls hannounced

theorem Attentive.full_beat {past : History α} (h : Attentive past t)
    (hs : (t.beat b).stage name = some (.blocked item heard))
    (hheard : (t.beat b).announced = heard) :
    (t.beat b).queue.Full ∨ (t.beat b).announced < (t.beat b).queue.takes := by
  have honward := onward_of_beat t b
  have hle := h.announced_le
  have hkept : t.announced = heard → t.queue.Full ∨ t.announced < t.queue.takes →
      (t.beat b).queue.Full ∨ (t.beat b).announced < (t.beat b).queue.takes := by
    intro hann hfull
    by_cases htakes : (t.beat b).queue.takes = t.queue.takes
    · rw [htakes, hheard, ← hann]
      exact hfull.imp_left fun hfull => honward.full hfull htakes
    · have := honward.takes_le
      exact .inr (by omega)
  cases puts_of_beat hs rfl with
  | same hpolls hold =>
    have hmark := (h.marked name _ heard hold rfl).heard_le
    have hann : t.announced = heard := by
      rcases announced_of_beat t b with ⟨heq, -⟩ | ⟨heq, -⟩ <;> omega
    exact hkept hann (h.full name item heard hold hann)
  | unheard hpolls hold => exact hkept rfl (h.full name item _ hold rfl)
  | refused hpolls hold hfull hqueue => exact .inl (hqueue ▸ hfull)

theorem attentive_of_run {initial : Option α} {past : History α} (h : Run initial past t) :
    Attentive past t := by
  induction h with
  | start => exact ⟨Nat.zero_le _, by simp, by simp⟩
  | @beat past t b h hfresh ih =>
    refine ⟨?_, fun name s heard hs hheard => ih.marked_beat hs hheard,
      fun name item heard hs hheard => ih.full_beat hs hheard⟩
    have hle := ih.announced_le
    have hmore := (onward_of_beat t b).takes_le
    rcases announced_of_beat t b with ⟨heq, hb, hlt⟩ | ⟨heq, -⟩
    · change t.announced < t.queue.takes at hlt
      omega
    · omega

section Blocked

variable {past : History α}

/-- A blocked put that has heard nothing is blocked by a full queue, or will hear of a take. -/
theorem Attentive.full_or_unannounced (h : Attentive past t)
    (hs : t.stage name = some (.blocked item heard)) (hnot : ¬ Notified name past) :
    t.queue.Full ∨ t.announced < t.queue.takes :=
  h.full name item heard hs (not_ne_iff.mp (mt (h.marked name _ heard hs rfl).ne_iff.mp hnot))

theorem Attentive.listens_of_notified (h : Attentive past t)
    (hs : t.stage name = some (.blocked item heard)) (hnotified : Notified name past) :
    t.beat (.go name) = t.setStage name (some (.trying item t.announced)) := by
  have hne := (h.marked name _ heard hs rfl).ne_iff.mpr hnotified
  rw [beat_go hs, next, if_neg hne]

/-- Once all takes are announced, a blocked put has done after a poll in which there is room. -/
theorem Attentive.done_of_room (h : Attentive past t)
    (hs : t.stage name = some (.blocked item heard)) (hall : t.announced = t.queue.takes)
    (hroom : t.queue.slot = none ∨ t.queue.parked ≠ []) :
    ∃ queue, t.queue.offer item = some queue ∧
      (t.beat (.go name)).beat (.go name) = { t with queue }.setStage name none := by
  have hnot := not_full_of_room hroom
  obtain ⟨queue, hoffer⟩ := offer_of_not_full item hnot
  have hnotified : Notified name past := by
    by_contra hdeaf
    rcases h.full_or_unannounced hs hdeaf with hfull | hlt
    · exact hnot hfull
    · omega
  refine ⟨queue, hoffer, ?_⟩
  rw [h.listens_of_notified hs hnotified, beat_go (stage_setStage ..), next, queue_setStage, hoffer]
  exact setStage_setStage { t with queue } name _ none

end Blocked

end Threads

namespace Callers

variable {c : Callers α} {s : Step α} {name other : String} {item : α} {seen : Nat}

/-- A put starts or is polled. -/
def polled (name : String) (m : Callers α × Step α) : Bool :=
  match m.2 with
  | .put other _ | .poll other => other == name
  | .pollAll => true
  | _ => false

/-- An item is taken from the slot, by a call that does not wait or by a new one. -/
def Takes (m : Callers α × Step α) : Prop :=
  ∃ a, Assigns m.1 m.2 none a

/-- An item was taken from the slot since the put started or was last polled, which is to say
since it last tried. -/
def Notified (name : String) (past : List (Callers α × Step α)) : Prop :=
  SinceLast (polled name) Takes past

theorem takes_iff : Takes (c, s) ↔
    (s = .tryTake ∨ ∃ name token, s = .take name token) ∧ ∃ a, (c.step s).1 = .item a := by
  constructor
  · rintro ⟨a, hs, ha⟩
    exact ⟨hs, a, ha⟩
  · rintro ⟨hs, a, ha⟩
    exact ⟨a, .fromSlot hs ha⟩

theorem takes_tryPut (c : Callers α) (name : String) (item : α) :
    (c.tryPut name item).2.queue.takes = c.queue.takes := by
  unfold tryPut
  cases hoffer : c.queue.offer item with
  | none => exact congrArg takes (queue_keep ..)
  | some q => exact takes_offer hoffer

theorem takes_poll (c : Callers α) (name : String) :
    (c.poll name).2.queue.takes = c.queue.takes := by
  unfold poll
  cases c.pending.lookup name with
  | none => rfl
  | some call =>
    cases call with
    | taking ticket token =>
      simp only [pollCall, queue_settleTake]
      exact takes_look ..
    | putting item seen =>
      simp only [pollCall]
      split
      · rfl
      · exact takes_tryPut ..

theorem takes_pollEach (c : Callers α) (names : List String) :
    (c.pollEach names).2.queue.takes = c.queue.takes := by
  induction names generalizing c with
  | nil => rfl
  | cons name names ih => exact (ih _).trans (takes_poll c name)

theorem takes_of_step (c : Callers α) (s : Step α) :
    (c.step s).2.queue.takes = c.queue.takes + 1 ∧ Takes (c, s) ∨
      (c.step s).2.queue.takes = c.queue.takes ∧ ¬ Takes (c, s) := by
  have hother : s ≠ .tryTake → (∀ name token, s ≠ .take name token) → ¬ Takes (c, s) := by
    intro htry htake ht
    rcases (takes_iff.mp ht).1 with rfl | ⟨name, token, rfl⟩
    · exact htry rfl
    · exact htake name token rfl
  cases s with
  | tryPut item =>
    refine .inr ⟨?_, hother (by simp) (by simp)⟩
    simp only [step]
    cases hoffer : c.queue.offer item with
    | none => rfl
    | some q => exact takes_offer hoffer
  | put name item => exact .inr ⟨takes_tryPut .., hother (by simp) (by simp)⟩
  | tryTake =>
    simp only [takes_iff, step]
    cases htake : c.queue.tryTake with
    | none => exact .inr ⟨rfl, by simp⟩
    | some x => exact .inl ⟨takes_tryTake (a := x.1) htake, by simp⟩
  | take name token =>
    have htakes := takes_take c.queue (c.isCancelled token)
    simp only [takes_iff, step, queue_settleTake]
    rcases htake : c.queue.take (c.isCancelled token) with ⟨answer, q⟩
    rw [htake] at htakes
    cases answer with
    | item a => exact .inl ⟨htakes, by simp [settleTake]⟩
    | failed | waiting => exact .inr ⟨htakes, by simp [settleTake]⟩
  | poll name => exact .inr ⟨takes_poll .., hother (by simp) (by simp)⟩
  | pollAll => exact .inr ⟨takes_pollEach .., hother (by simp) (by simp)⟩
  | drop name =>
    refine .inr ⟨?_, hother (by simp) (by simp)⟩
    simp only [step]
    cases hcall : c.pending.lookup name with
    | none => simp [drop, hcall]
    | some call =>
      cases call with
      | putting item seen => simp [drop, hcall, forget]
      | taking ticket token =>
        rw [(drop_taking hcall).1]
        exact takes_withdraw ..
  | cancel | close => exact .inr ⟨rfl, hother (by simp) (by simp)⟩

/-- A put that waits for room after another call was forgotten or kept. -/
theorem putting_forget (h : (c.forget other).pending.lookup name = some (.putting item seen)) :
    other ≠ name ∧ c.pending.lookup name = some (.putting item seen) := by
  rw [lookup_forget] at h
  split at h
  · cases h
  · next hne => exact ⟨Ne.symm hne, h⟩

theorem putting_settleTake {token : Option Token} {x : Taking α × WaitQueue α}
    (h : (c.settleTake other token x).2.pending.lookup name = some (.putting item seen)) :
    other ≠ name ∧ c.pending.lookup name = some (.putting item seen) := by
  obtain ⟨_ | _ | ticket, q⟩ := x
  · exact putting_forget (c := { c with queue := q }) h
  · exact putting_forget (c := { c with queue := q }) h
  · simp only [settleTake, lookup_keep] at h
    split at h
    · cases h
    · next hne => exact ⟨Ne.symm hne, h⟩

theorem putting_tryPut {item' : α}
    (h : (c.tryPut other item').2.pending.lookup name = some (.putting item seen)) :
    other = name ∧ seen = c.queue.takes ∨
      other ≠ name ∧ c.pending.lookup name = some (.putting item seen) := by
  unfold tryPut at h
  cases hoffer : c.queue.offer item' with
  | some q =>
    rw [hoffer] at h
    exact .inr (putting_forget (c := { c with queue := q }) h)
  | none =>
    simp only [hoffer, lookup_keep] at h
    split at h
    · next heq =>
      cases h
      exact .inl ⟨heq.symm, rfl⟩
    · next hne => exact .inr ⟨Ne.symm hne, h⟩

/-- A put that still waits after a poll of a call has tried, or has nothing to try for. -/
theorem putting_poll (h : (c.poll other).2.pending.lookup name = some (.putting item seen)) :
    other = name ∧ seen = c.queue.takes ∨
      other ≠ name ∧ c.pending.lookup name = some (.putting item seen) := by
  unfold poll at h
  cases hcall : c.pending.lookup other with
  | none =>
    rw [hcall] at h
    refine .inr ⟨?_, h⟩
    rintro rfl
    simp [hcall] at h
  | some call =>
    rw [hcall] at h
    cases call with
    | taking ticket token => exact .inr (putting_settleTake h)
    | putting item' seen' =>
      simp only [pollCall] at h
      split at h
      · next heq =>
        by_cases hname : other = name
        · subst hname
          rw [hcall] at h
          cases h
          exact .inl ⟨rfl, heq.symm⟩
        · exact .inr ⟨hname, h⟩
      · exact putting_tryPut h

theorem putting_pollEach {names : List String}
    (h : (c.pollEach names).2.pending.lookup name = some (.putting item seen)) :
    name ∈ names ∧ seen = c.queue.takes ∨
      name ∉ names ∧ c.pending.lookup name = some (.putting item seen) := by
  induction names generalizing c with
  | nil => exact .inr ⟨List.not_mem_nil, h⟩
  | cons other names ih =>
    rw [List.mem_cons]
    rcases ih h with ⟨hmem, hseen⟩ | ⟨hnot, hpoll⟩
    · exact .inl ⟨.inr hmem, hseen.trans (takes_poll c other)⟩
    · rcases putting_poll hpoll with ⟨hname, hseen⟩ | ⟨hname, hcall⟩
      · exact .inl ⟨.inl hname.symm, hseen⟩
      · exact .inr ⟨by simp [hnot, Ne.symm hname], hcall⟩

/-- A put that still waits after a step has just been polled and knows of all takes, or it waited
before as it does now. -/
theorem putting_of_step (h : (c.step s).2.pending.lookup name = some (.putting item seen)) :
    polled name (c, s) = true ∧ seen = (c.step s).2.queue.takes ∨
      polled name (c, s) = false ∧ c.pending.lookup name = some (.putting item seen) := by
  cases s with
  | tryPut item' =>
    refine .inr ⟨rfl, ?_⟩
    simp only [step] at h
    cases hoffer : c.queue.offer item' with
    | none => simpa [hoffer] using h
    | some q => simpa [hoffer] using h
  | put other item' =>
    rcases putting_tryPut h with ⟨hname, hseen⟩ | ⟨hname, hcall⟩
    · exact .inl ⟨by simp [polled, hname], hseen.trans (takes_tryPut ..).symm⟩
    · exact .inr ⟨by simp [polled, hname], hcall⟩
  | tryTake =>
    refine .inr ⟨rfl, ?_⟩
    simp only [step] at h
    cases htake : c.queue.tryTake with
    | none => simpa [htake] using h
    | some x => simpa [htake] using h
  | take other token => exact .inr ⟨rfl, (putting_settleTake h).2⟩
  | poll other =>
    rcases putting_poll h with ⟨hname, hseen⟩ | ⟨hname, hcall⟩
    · exact .inl ⟨by simp [polled, hname], hseen.trans (takes_poll ..).symm⟩
    · exact .inr ⟨by simp [polled, hname], hcall⟩
  | pollAll =>
    rcases putting_pollEach h with ⟨-, hseen⟩ | ⟨hnot, hcall⟩
    · exact .inl ⟨rfl, hseen.trans (takes_pollEach ..).symm⟩
    · -- a call that is pending is among those that are polled
      have hnone : c.pending.lookup name = none := by
        refine List.lookup_eq_none_iff.mpr fun p hp => ?_
        simpa using fun heq : name = p.1 => hnot (heq ▸ List.mem_map_of_mem hp)
      rw [hnone] at hcall
      cases hcall
  | drop other =>
    refine .inr ⟨rfl, ?_⟩
    simp only [step] at h
    cases hcall : c.pending.lookup other with
    | none => simpa [drop, hcall] using h
    | some call =>
      cases call with
      | putting item' seen' =>
        simp only [drop, hcall] at h
        exact (putting_forget h).2
      | taking ticket token =>
        rw [(drop_taking hcall).1] at h
        exact (putting_forget (c := { c with queue := _ }) h).2
  | cancel | close => exact .inr ⟨rfl, h⟩

/-- What a put knows of the takes from the slot. -/
theorem marked_of_run {initial : Option α} {past : List (Callers α × Step α)}
    (h : Run initial past c) (hcall : c.pending.lookup name = some (.putting item seen)) :
    Marked (polled name) Takes past c.queue.takes seen := by
  induction h with
  | start => cases hcall
  | step s h hs ih =>
    rcases putting_of_step hcall with ⟨hpolled, rfl⟩ | ⟨hpolled, hold⟩
    · exact .again hpolled _
    · exact (ih hold).later hpolled (takes_of_step _ s)

section Blocked

variable {initial : Option α} {past : List (Callers α × Step α)}

/-- A put that knows of all takes waits for room in a full queue. -/
theorem full_of_run (h : Run initial past c)
    (hcall : c.pending.lookup name = some (.putting item seen)) (hseen : c.queue.takes = seen) :
    c.queue.Full := by
  obtain ⟨history, hrest⟩ := run_atRest h
  have hstage : c.atRest.stage name = some (.blocked item seen) := by
    simp [atRest, hcall, Call.stage]
  exact ((Threads.attentive_of_run hrest).full name item seen hstage hseen).resolve_right
    (Nat.lt_irrefl _)

theorem poll_of_taken (hcall : c.pending.lookup name = some (.putting item seen))
    (hne : c.queue.takes ≠ seen) : c.step (.poll name) = c.tryPut name item := by
  simp only [step, poll, hcall, pollCall, if_neg hne]

theorem poll_of_room (h : Run initial past c)
    (hcall : c.pending.lookup name = some (.putting item seen))
    (hroom : c.queue.slot = none ∨ c.queue.parked ≠ []) :
    ∃ queue, c.queue.offer item = some queue ∧
      c.step (.poll name) = (.put, { c with queue }.forget name) := by
  have hnot := not_full_of_room hroom
  obtain ⟨queue, hoffer⟩ := offer_of_not_full item hnot
  have hne : c.queue.takes ≠ seen := mt (full_of_run h hcall) hnot
  exact ⟨queue, hoffer, by rw [poll_of_taken hcall hne, tryPut, hoffer]⟩

end Blocked

/-- A put that waits for room finds the queue full, or an item was taken from the slot since it
was last polled; then it tries again at its next poll, and it has done if there is still room.
Where the calls are on threads of their own, this holds as soon as the take is announced. -/
theorem no_wakeup_lost {initial : Option α} :
    (∀ {past : List (Callers α × Step α)} {c : Callers α}, Run initial past c →
      ∀ name item seen, c.pending.lookup name = some (.putting item seen) →
        (c.queue.takes ≠ seen ↔ Notified name past) ∧
        (¬ Notified name past → c.queue.slot.isSome ∧ c.queue.parked = []) ∧
        (Notified name past → c.step (.poll name) = c.tryPut name item) ∧
        (c.queue.slot = none ∨ c.queue.parked ≠ [] → ∃ queue, c.queue.offer item = some queue ∧
          c.step (.poll name) = (.put, { c with queue }.forget name))) ∧
    ∀ {past : Threads.History α} {t : Threads α}, Threads.Run initial past t →
      ∀ name item heard, t.stage name = some (.blocked item heard) →
        (¬ Threads.Notified name past →
          t.queue.slot.isSome ∧ t.queue.parked = [] ∨ t.announced < t.queue.takes) ∧
        (Threads.Notified name past →
          t.beat (.go name) = t.setStage name (some (.trying item t.announced))) ∧
        (t.announced = t.queue.takes → t.queue.slot = none ∨ t.queue.parked ≠ [] →
          ∃ queue, t.queue.offer item = some queue ∧
            (t.beat (.go name)).beat (.go name) = { t with queue }.setStage name none) := by
  refine ⟨?_, ?_⟩
  · intro past c h name item seen hcall
    have hiff := (marked_of_run h hcall).ne_iff
    refine ⟨hiff, fun hnot => ?_, fun hnotified => ?_, poll_of_room h hcall⟩
    · have hfull := full_of_run h hcall (not_ne_iff.mp (mt hiff.mp hnot))
      exact ⟨hfull.occupied, hfull.unparked⟩
    · exact poll_of_taken hcall (hiff.mpr hnotified)
  · intro past t h name item heard hs
    have hattentive := Threads.attentive_of_run h
    refine ⟨fun hnot => ?_, hattentive.listens_of_notified hs, hattentive.done_of_room hs⟩
    exact (hattentive.full_or_unannounced hs hnot).imp_left fun h => ⟨h.occupied, h.unparked⟩

/-- A put is blocked; the item is taken, and another put may fill the slot before the blocked one
is polled. On threads the slot is empty for a while before the take is announced. -/
theorem no_wakeup_lost_refilled :
    (∃ (past : List (Callers Nat × Step Nat)) (c : Callers Nat), Run (some 1) past c ∧
      ¬ Notified "a" past ∧ c.queue.slot.isSome ∧ c.queue.parked = []) ∧
    (∃ (past : List (Callers Nat × Step Nat)) (c : Callers Nat), Run (some 1) past c ∧
      c.queue.slot = none ∧ (c.step (.poll "a")).1 = .put) ∧
    (∃ (past : List (Callers Nat × Step Nat)) (c : Callers Nat), Run (some 1) past c ∧
      c.queue.slot = some 3 ∧ Notified "a" past ∧ c.step (.poll "a") = c.tryPut "a" 2) ∧
    (∃ (past : Threads.History Nat) (t : Threads Nat), Threads.Run (some 1) past t ∧
      t.queue.slot = none ∧ ¬ Threads.Notified "a" past ∧ t.announced < t.queue.takes) ∧
    ∃ (past : Threads.History Nat) (t : Threads Nat), Threads.Run (some 1) past t ∧
      t.queue.slot = none ∧ Threads.Notified "a" past ∧
      t.beat (.go "a") = t.setStage "a" (some (.trying 2 1)) ∧
      ((t.beat (.go "a")).beat (.go "a")).stage "a" = none := by
  have hblocked : Run (some 1 : Option Nat) _ _ := Run.start.step (.put "a" 2) rfl
  have htaken := hblocked.step .tryTake trivial
  have hrefilled := htaken.step (.put "b" 3) rfl
  have hraced : Threads.Run (some 1 : Option Nat) _ _ :=
    ((Threads.Run.start.beat (.put "a" 2) rfl).beat (.go "a") trivial).beat .tryTake trivial
  have hannounced := hraced.beat .announce trivial
  refine ⟨⟨_, _, hblocked, ?_⟩, ⟨_, _, htaken, rfl, ?_⟩, ⟨_, _, hrefilled, rfl, ?_⟩,
    ⟨_, _, hraced, rfl, ?_⟩, ⟨_, _, hannounced, rfl, ?_⟩⟩
  · obtain ⟨hiff, hfull, -, -⟩ := no_wakeup_lost.1 hblocked "a" 2 0 rfl
    have hnot := mt hiff.mpr (by decide)
    exact ⟨hnot, hfull hnot⟩
  · obtain ⟨queue, -, hdone⟩ := (no_wakeup_lost.1 htaken "a" 2 0 rfl).2.2.2 (.inl rfl)
    exact congrArg Prod.fst hdone
  · obtain ⟨hiff, -, hagain, -⟩ := no_wakeup_lost.1 hrefilled "a" 2 0 rfl
    have hnotified := hiff.mp (by decide)
    exact ⟨hnotified, hagain hnotified⟩
  · have hfull := (no_wakeup_lost.2 hraced "a" 2 0 rfl).1
    refine (fun hnot => ⟨hnot, (hfull hnot).resolve_left fun h => nomatch h.1⟩) ?_
    simp [Threads.Notified, sinceLast_cons, Threads.polled, Threads.Announces]
  · obtain ⟨-, hlistens, hdone⟩ := no_wakeup_lost.2 hannounced "a" 2 0 rfl
    obtain ⟨queue, -, hstate⟩ := hdone rfl (.inl rfl)
    have hended := (congrArg (fun t => t.stage "a") hstate).trans (Threads.stage_setStage ..)
    refine (fun hnotified => ⟨hnotified, hlistens hnotified, hended⟩) ?_
    exact sinceLast_cons.mpr ⟨rfl, .inl ⟨rfl, by decide⟩⟩

end Callers

end ScriptHost.WaitQueue
