import Mathlib.Data.List.DropRight
import Mathlib.Logic.Function.Basic
import ScriptHost.Event

/-!
What the bus owes its subscribers, over everything that can happen to it. A subscriber that has
not been dropped gets the events published between its subscription and its close, each once
and in order, whatever the others do: its part of the bus can be told from what concerns it
alone. The bus forgets those that are gone when it publishes next.
-/

namespace ScriptHost.EventBus

/-- What can happen to a bus. Subscribers are named in the order in which they came. -/
inductive Act where
  | subscribe
  | publish (e : Event)
  | drop (id : Nat)
  | close (id : Nat)
  | drain (id : Nat)
  deriving DecidableEq

namespace Act

def published? : Act → Option Event
  | publish e => some e
  | _ => none

/-- Whether something that happens matters to a subscriber that is there. -/
def concerns (k : Nat) : Act → Bool
  | subscribe => false
  | publish _ => true
  | drop id | close id | drain id => id == k

end Act

/-- A bus, and what each of its subscribers has received. -/
structure Audience where
  bus : EventBus := {}
  received : Nat → List Event := fun _ => []

def Audience.act (a : Audience) : Act → Audience
  | .subscribe => { a with bus := a.bus.subscribe.2 }
  | .publish e => { a with bus := a.bus.publish e }
  | .drop id => { a with bus := a.bus.drop id }
  | .close id => { a with bus := a.bus.close id }
  | .drain id =>
    { bus := (a.bus.drain id).2
      received := Function.update a.received id (a.received id ++ (a.bus.drain id).1) }

/-- A new bus after all this happened to it. -/
def after (acts : List Act) : Audience :=
  acts.foldl Audience.act {}

/-- What a subscriber has received. -/
def received (k : Nat) (acts : List Act) : List Event :=
  (after acts).received k

/-- What a subscriber can still receive. -/
def receivable (k : Nat) (acts : List Act) : List Event :=
  ((after acts).bus.drain k).1

/-- How many subscriptions were made. -/
def subscribed (acts : List Act) : Nat :=
  acts.count .subscribe

/-- What happened after the subscription `k` was made. -/
def since : Nat → List Act → List Act
  | _, [] => []
  | 0, .subscribe :: acts => acts
  | k + 1, .subscribe :: acts => since k acts
  | k, _ :: acts => since k acts

/-- What happened to the subscriber `k`. -/
def concerning (k : Nat) (acts : List Act) : List Act :=
  (since k acts).filter (Act.concerns k)

/-- The events published after the subscription `k` was made and before it was closed. -/
def due (k : Nat) (acts : List Act) : List Event :=
  ((since k acts).takeWhile (· ≠ .close k)).filterMap Act.published?

def Dropped (k : Nat) (acts : List Act) : Prop :=
  .drop k ∈ since k acts

/-- The subscriber was dropped or closed. -/
def Left (k : Nat) (acts : List Act) : Prop :=
  .drop k ∈ since k acts ∨ .close k ∈ since k acts

instance (k : Nat) (acts : List Act) : Decidable (Dropped k acts) :=
  inferInstanceAs (Decidable (_ ∈ _))

instance (k : Nat) (acts : List Act) : Decidable (Left k acts) :=
  inferInstanceAs (Decidable (_ ∨ _))

/-- Everything up to the latest publication. -/
def untilPublication (acts : List Act) : List Act :=
  acts.rdropWhile fun a => a.published?.isNone

/-- Those who had left when the bus published last. -/
def forgotten (acts : List Act) : List Nat :=
  (List.range (subscribed acts)).filter (Left · (untilPublication acts))

section Histories

variable {k : Nat} {acts : List Act} {a : Act}

theorem subscribed_append (acts : List Act) (a : Act) :
    subscribed (acts ++ [a]) = subscribed acts + if a = .subscribe then 1 else 0 := by
  unfold subscribed
  rw [List.count_append, List.count_singleton]
  simp only [beq_iff_eq]

@[simp]
theorem since_nil (k : Nat) : since k [] = [] := by
  cases k <;> rfl

theorem since_cons_of_ne (h : a ≠ .subscribe) : since k (a :: acts) = since k acts := by
  cases a <;> cases k <;> first | rfl | exact absurd rfl h

/-- A subscription is followed by what happens after it is there. -/
theorem since_append (k : Nat) (acts : List Act) (a : Act) :
    since k (acts ++ [a]) = if k < subscribed acts then since k acts ++ [a] else [] := by
  induction acts generalizing k with
  | nil => cases k <;> cases a <;> rfl
  | cons b acts ih =>
    by_cases hb : b = .subscribe
    · subst hb
      have hcount : subscribed (.subscribe :: acts) = subscribed acts + 1 := by simp [subscribed]
      cases k with
      | zero => simp [since, hcount]
      | succ k => simpa [since, hcount] using ih k
    · have hcount : subscribed (b :: acts) = subscribed acts := List.count_cons_of_ne hb
      rw [List.cons_append, since_cons_of_ne hb, since_cons_of_ne hb, hcount]
      exact ih k

theorem since_of_le (h : subscribed acts ≤ k) : since k acts = [] := by
  cases acts using List.reverseRecOn with
  | nil => exact since_nil k
  | append_singleton acts a =>
    have hle : subscribed acts ≤ k := by
      rw [subscribed_append] at h
      omega
    rw [since_append, if_neg (by omega)]

theorem concerning_append (k : Nat) (acts : List Act) (a : Act) :
    concerning k (acts ++ [a]) =
      concerning k acts ++ if k < subscribed acts ∧ a.concerns k then [a] else [] := by
  unfold concerning
  rw [since_append]
  by_cases hk : k < subscribed acts
  · cases ha : a.concerns k <;> simp [hk, ha]
  · simp [hk, since_of_le (Nat.le_of_not_lt hk)]

end Histories

structure Listener where
  subscription : Subscription := {}
  received : List Event := []

def Listener.act (l : Listener) : Act → Listener
  | .subscribe => l
  | .publish e => { l with subscription := offer e l.subscription }
  | .drop _ => { l with subscription := { l.subscription with status := .dropped, buffer := [] } }
  | .close _ =>
    { l with
      subscription :=
        if l.subscription.status = .receiving then { l.subscription with status := .closed }
        else l.subscription }
  | .drain _ =>
    { subscription := { l.subscription with buffer := [] }
      received := l.received ++ l.subscription.buffer }

def listener (k : Nat) (acts : List Act) : Listener :=
  (concerning k acts).foldl Listener.act {}

/-- A subscriber that nothing happened to yet. -/
theorem listener_of_le {k : Nat} {acts : List Act} (h : subscribed acts ≤ k) :
    listener k acts = {} := by
  simp [listener, concerning, since_of_le h]

@[simp]
theorem listener_nil (k : Nat) : listener k [] = {} :=
  listener_of_le (Nat.zero_le k)

theorem listener_append (k : Nat) (acts : List Act) (a : Act) :
    listener k (acts ++ [a]) =
      if k < subscribed acts ∧ a.concerns k then (listener k acts).act a else listener k acts := by
  unfold listener
  rw [concerning_append, List.foldl_append]
  split <;> rfl

theorem after_append (acts : List Act) (a : Act) :
    after (acts ++ [a]) = (after acts).act a := by
  unfold after
  rw [List.foldl_append, List.foldl_cons, List.foldl_nil]

theorem modify_map_range {α : Type} (f : Nat → α) (g : α → α) (n k : Nat) :
    ((List.range n).map f).modify k g =
      (List.range n).map fun i => if k = i then g (f i) else f i := by
  apply List.ext_getElem <;> simp [List.getElem_modify]

/-- The bus is its subscribers, each as if it were alone. -/
theorem subscriptions_after (acts : List Act) :
    (after acts).bus.subscriptions =
      (List.range (subscribed acts)).map fun k => (listener k acts).subscription := by
  induction acts using List.reverseRecOn with
  | nil => rfl
  | append_singleton acts a ih =>
    have hone : ∀ id (g : Subscription → Subscription),
        (after acts).bus.subscriptions.modify id g = (List.range (subscribed acts)).map fun k =>
          if id = k then g (listener k acts).subscription
          else (listener k acts).subscription := by
      intro id g
      rw [ih, modify_map_range]
    rw [after_append]
    cases a with
    | subscribe =>
      simp [Audience.act, subscribe, ih, subscribed_append, List.range_succ, listener_append,
        Act.concerns, listener_of_le]
    | publish e =>
      simp +contextual [Audience.act, publish, ih, subscribed_append, listener_append,
        Act.concerns, Listener.act]
    | drop id | close id | drain id =>
      simp only [Audience.act, drop, close, drain, hone, subscribed_append, reduceCtorEq,
        if_false, Nat.add_zero, List.map_inj_left, List.mem_range]
      intro k hk
      by_cases hid : id = k <;> simp [listener_append, Act.concerns, hk, hid, Listener.act]

theorem receivable_eq (k : Nat) (acts : List Act) :
    receivable k acts = (listener k acts).subscription.buffer := by
  unfold receivable drain
  rw [subscriptions_after]
  by_cases hk : k < subscribed acts
  · simp [hk]
  · simp [hk, listener_of_le (Nat.le_of_not_lt hk)]

theorem received_eq (k : Nat) (acts : List Act) :
    received k acts = (listener k acts).received := by
  induction acts using List.reverseRecOn with
  | nil => simp [received, after]
  | append_singleton acts a ih =>
    unfold received at ih ⊢
    rw [after_append, listener_append]
    cases a with
    | drain id =>
      have hdrained : ((after acts).bus.drain k).1 = _ := receivable_eq k acts
      by_cases hid : id = k
      · subst hid
        by_cases hk : id < subscribed acts
        · simp [Audience.act, hk, Act.concerns, Listener.act, ih, hdrained]
        · simp [Audience.act, hk, ih, hdrained, listener_of_le (Nat.le_of_not_lt hk)]
      · simp [Audience.act, Act.concerns, hid, Function.update_of_ne (Ne.symm hid), ih]
    | subscribe | publish | drop | close =>
      have hsame : ∀ b : Act, (∀ id, b ≠ .drain id) →
          ((listener k acts).act b).received = (listener k acts).received := by
        rintro (_ | _ | _ | _ | id) hb <;> first | rfl | exact absurd rfl (hb id)
      split <;> simp [Audience.act, ih, hsame]

section Due

variable {k : Nat} {acts : List Act}

theorem due_append (k : Nat) (acts : List Act) (a : Act) :
    due k (acts ++ [a]) =
      if k < subscribed acts ∧ .close k ∉ since k acts then due k acts ++ a.published?.toList
      else due k acts := by
  have hwhole : ∀ l : List Act, .close k ∉ l → l.takeWhile (· ≠ .close k) = l := by
    intro l hl
    rw [List.takeWhile_eq_self_iff]
    intro b hb
    simpa using ne_of_mem_of_not_mem hb hl
  unfold due
  rw [since_append]
  by_cases hk : k < subscribed acts
  · by_cases hclosed : .close k ∈ since k acts
    · have hpart : ¬ ∀ b ∈ since k acts, decide (b ≠ .close k) = true := by
        intro hall
        simpa using hall _ hclosed
      simp only [hk, hclosed, if_true, not_true, and_false, if_false]
      rw [List.takeWhile_append, if_neg]
      intro hlength
      exact hpart (List.takeWhile_eq_self_iff.mp
        ((List.takeWhile_prefix _).eq_of_length hlength))
    · rw [if_pos hk, if_pos ⟨hk, hclosed⟩, List.takeWhile_append, hwhole _ hclosed, if_pos rfl,
        List.filterMap_append]
      cases a <;> simp [Act.published?, List.takeWhile]
      split <;> simp
  · simp [hk, since_of_le (Nat.le_of_not_lt hk)]

theorem mem_since_append {a b : Act} :
    b ∈ since k (acts ++ [a]) ↔ b ∈ since k acts ∨ k < subscribed acts ∧ b = a := by
  rw [since_append]
  by_cases hk : k < subscribed acts
  · simp [hk]
  · simp [hk, since_of_le (Nat.le_of_not_lt hk)]

/-- How the receiver of a subscriber stands. -/
structure Kept (k : Nat) (acts : List Act) (l : Listener) : Prop where
  receiving : l.subscription.status = .receiving ↔ ¬ Left k acts
  dropped : l.subscription.status = .dropped ↔ Dropped k acts
  registered : l.subscription.status = .receiving → l.subscription.registered = true
  emptied : Dropped k acts → l.subscription.buffer = []
  got : l.received ++ l.subscription.buffer <+: due k acts
  all : ¬ Dropped k acts → l.received ++ l.subscription.buffer = due k acts

/-- Only who left and what is due tell how a receiver stands. -/
theorem Kept.congr {acts' : List Act} {l : Listener} (h : Kept k acts l)
    (hleft : Left k acts' ↔ Left k acts) (hdropped : Dropped k acts' ↔ Dropped k acts)
    (hdue : due k acts' = due k acts) : Kept k acts' l where
  receiving := by rw [hleft]; exact h.receiving
  dropped := by rw [hdropped]; exact h.dropped
  registered := h.registered
  emptied := by rw [hdropped]; exact h.emptied
  got := by rw [hdue]; exact h.got
  all := by rw [hdropped, hdue]; exact h.all

/-- What is not published adds nothing to what is due. -/
theorem due_append_of_isNone {a : Act} (h : a.published? = none) :
    due k (acts ++ [a]) = due k acts := by
  rw [due_append, h]
  split <;> simp

/-- A receiver that still takes events takes this one. -/
theorem Kept.publish_receiving {l : Listener} (h : Kept k acts l) (hk : k < subscribed acts)
    (e : Event) (hreceiving : l.subscription.status = .receiving) :
    Kept k (acts ++ [.publish e]) (l.act (.publish e)) := by
  have hstays := h.receiving.mp hreceiving
  have hopen : ¬ Dropped k acts := fun hd => hstays (.inl hd)
  have hleft' : ¬ Left k (acts ++ [.publish e]) := by simpa [Left, mem_since_append] using hstays
  have hopen' : ¬ Dropped k (acts ++ [.publish e]) := fun hd => hleft' (.inl hd)
  have hdue : due k (acts ++ [.publish e]) = due k acts ++ [e] := by
    rw [due_append, if_pos ⟨hk, fun hc => hstays (.inr hc)⟩]
    rfl
  have hall : l.received ++ (l.subscription.buffer ++ [e]) = due k (acts ++ [.publish e]) := by
    rw [← List.append_assoc, h.all hopen, hdue]
  have hact : l.act (.publish e) =
      { l with subscription.buffer := l.subscription.buffer ++ [e] } := by
    simp [Listener.act, offer, hreceiving, h.registered hreceiving]
  rw [hact]
  exact {
    receiving := iff_of_true hreceiving hleft'
    dropped := iff_of_false (by simp [hreceiving]) hopen'
    registered := h.registered
    emptied := fun hd => absurd hd hopen'
    got := ⟨[], by rw [List.append_nil]; exact hall⟩
    all := fun _ => hall }

/-- A receiver that has gone misses the event, which is due only if it was dropped. -/
theorem Kept.publish_gone {l : Listener} (h : Kept k acts l) (e : Event)
    (hgone : l.subscription.status ≠ .receiving) :
    Kept k (acts ++ [.publish e]) (l.act (.publish e)) := by
  have hleft : Left k acts := by_contra fun hstays => hgone (h.receiving.mpr hstays)
  have hleft' : Left k (acts ++ [.publish e]) := by simpa [Left, mem_since_append] using hleft
  have hdropped : Dropped k (acts ++ [.publish e]) ↔ Dropped k acts := by
    simp [Dropped, mem_since_append]
  have hdue : due k acts <+: due k (acts ++ [.publish e]) := by
    rw [due_append]
    split
    · exact List.prefix_append _ _
    · exact List.prefix_rfl
  have hclosed : ¬ Dropped k acts → due k (acts ++ [.publish e]) = due k acts := by
    intro hd
    rw [due_append, if_neg fun hopen => hopen.2 (hleft.resolve_left hd)]
  have hstatus : (l.act (.publish e)).subscription.status = l.subscription.status := by
    simp only [Listener.act, offer, hgone, if_false]
    split <;> rfl
  have hbuffer : (l.act (.publish e)).subscription.buffer = l.subscription.buffer := by
    simp only [Listener.act, offer, hgone, if_false]
    split <;> rfl
  have hreceived : (l.act (.publish e)).received = l.received := rfl
  exact {
    receiving := by simp [hstatus, hgone, hleft']
    dropped := by rw [hstatus, hdropped]; exact h.dropped
    registered := fun hs => absurd (hstatus ▸ hs) hgone
    emptied := by rw [hdropped, hbuffer]; exact h.emptied
    got := by rw [hreceived, hbuffer]; exact h.got.trans hdue
    all := by
      intro hd
      rw [hdropped] at hd
      rw [hreceived, hbuffer, hclosed hd]
      exact h.all hd }

theorem Kept.publish {l : Listener} (h : Kept k acts l) (hk : k < subscribed acts) (e : Event) :
    Kept k (acts ++ [.publish e]) (l.act (.publish e)) := by
  by_cases hreceiving : l.subscription.status = .receiving
  · exact h.publish_receiving hk e hreceiving
  · exact h.publish_gone e hreceiving

theorem Kept.drop {l : Listener} (h : Kept k acts l) (hk : k < subscribed acts) :
    Kept k (acts ++ [.drop k]) (l.act (.drop k)) := by
  have hdropped : Dropped k (acts ++ [.drop k]) := mem_since_append.mpr (.inr ⟨hk, rfl⟩)
  have hleft : Left k (acts ++ [.drop k]) := .inl hdropped
  exact {
    receiving := by simp [Listener.act, hleft]
    dropped := by simp [Listener.act, hdropped]
    registered := by simp [Listener.act]
    emptied := fun _ => rfl
    got := by
      rw [due_append_of_isNone rfl]
      simpa [Listener.act] using (List.prefix_append _ _).trans h.got
    all := fun hd => absurd hdropped hd }

theorem Kept.close {l : Listener} (h : Kept k acts l) (hk : k < subscribed acts) :
    Kept k (acts ++ [.close k]) (l.act (.close k)) := by
  have hleft : Left k (acts ++ [.close k]) := .inr (mem_since_append.mpr (.inr ⟨hk, rfl⟩))
  have hdropped : Dropped k (acts ++ [.close k]) ↔ Dropped k acts := by
    simp [Dropped, mem_since_append]
  have hdue : due k (acts ++ [.close k]) = due k acts := due_append_of_isNone rfl
  by_cases hreceiving : l.subscription.status = .receiving
  · have hopen : ¬ Dropped k acts := fun hd => h.receiving.mp hreceiving (.inl hd)
    simp only [Listener.act, hreceiving, if_true]
    exact {
      receiving := by simp [hleft]
      dropped := by simp [hdropped, hopen]
      registered := by simp
      emptied := by rw [hdropped]; exact h.emptied
      got := by rw [hdue]; exact h.got
      all := by rw [hdropped, hdue]; exact h.all }
  · have hgone : Left k acts := by_contra fun hstays => hreceiving (h.receiving.mpr hstays)
    simp only [Listener.act, hreceiving, if_false]
    exact h.congr (iff_of_true hleft hgone) hdropped hdue

theorem Kept.drain {l : Listener} (h : Kept k acts l) :
    Kept k (acts ++ [.drain k]) (l.act (.drain k)) := by
  have hdrained : Kept k acts (l.act (.drain k)) := {
    receiving := h.receiving
    dropped := h.dropped
    registered := h.registered
    emptied := fun _ => rfl
    got := by simpa [Listener.act] using h.got
    all := by simpa [Listener.act] using h.all }
  exact hdrained.congr (by simp [Left, mem_since_append]) (by simp [Dropped, mem_since_append])
    (due_append_of_isNone rfl)

/-- What concerns others leaves a subscriber as it is. -/
theorem Kept.apart {l : Listener} {a : Act} (h : Kept k acts l)
    (ha : ¬ (k < subscribed acts ∧ a.concerns k)) : Kept k (acts ++ [a]) l := by
  have hmem : ∀ b : Act, b.concerns k = true →
      (b ∈ since k (acts ++ [a]) ↔ b ∈ since k acts) := by
    intro b hb
    rw [mem_since_append, or_iff_left]
    rintro ⟨hk, rfl⟩
    exact ha ⟨hk, hb⟩
  have hdropped : Dropped k (acts ++ [a]) ↔ Dropped k acts := hmem _ (by simp [Act.concerns])
  have hclosed := hmem (.close k) (by simp [Act.concerns])
  refine h.congr (or_congr hdropped hclosed) hdropped ?_
  by_cases hk : k < subscribed acts
  · refine due_append_of_isNone ?_
    cases a <;> first | rfl | exact absurd ⟨hk, rfl⟩ ha
  · rw [due_append, if_neg fun hopen => hk hopen.1]

theorem kept_listener (k : Nat) (acts : List Act) : Kept k acts (listener k acts) := by
  induction acts using List.reverseRecOn with
  | nil =>
    rw [listener_nil]
    constructor <;> simp [Left, Dropped, due]
  | append_singleton acts a ih =>
    rw [listener_append]
    split
    · next hown =>
      obtain ⟨hk, hconcerns⟩ := hown
      cases a with
      | subscribe => cases hconcerns
      | publish e => exact ih.publish hk e
      | drop id =>
        obtain rfl := beq_iff_eq.mp hconcerns
        exact ih.drop hk
      | close id =>
        obtain rfl := beq_iff_eq.mp hconcerns
        exact ih.close hk
      | drain id =>
        obtain rfl := beq_iff_eq.mp hconcerns
        exact ih.drain
    · next hother => exact ih.apart hother

end Due

section Registered

variable {k : Nat} {acts : List Act} {a : Act}

theorem untilPublication_append (acts : List Act) (a : Act) :
    untilPublication (acts ++ [a]) =
      if a.published?.isNone then untilPublication acts else acts ++ [a] := by
  unfold untilPublication
  rw [List.rdropWhile_concat]

/-- Only a publication touches what is registered. -/
theorem registered_act (l : Listener) (h : a.published? = none) :
    (l.act a).subscription.registered = l.subscription.registered := by
  cases a with
  | publish => cases h
  | close =>
    simp only [Listener.act]
    split <;> rfl
  | subscribe | drop | drain => rfl

/-- A subscription is forgotten by the first publication after its receiver has gone. -/
theorem registered_eq_false_iff (k : Nat) (acts : List Act) :
    (listener k acts).subscription.registered = false ↔ Left k (untilPublication acts) := by
  induction acts using List.reverseRecOn with
  | nil => simp [untilPublication, Left]
  | append_singleton acts a ih =>
    rw [listener_append, untilPublication_append]
    cases ha : a.published? with
    | none =>
      rw [Option.isNone_none, if_pos rfl, ← ih]
      split
      · rw [registered_act _ ha]
      · rfl
    | some e =>
      obtain rfl : a = .publish e := by
        cases a <;> first | cases ha; rfl | cases ha
      have hkept := kept_listener k acts
      have hleft : Left k (acts ++ [.publish e]) ↔ Left k acts := by simp [Left, mem_since_append]
      rw [Option.isNone_some, if_neg Bool.false_ne_true, hleft]
      by_cases hk : k < subscribed acts
      · rw [if_pos ⟨hk, rfl⟩]
        by_cases hreceiving : (listener k acts).subscription.status = .receiving
        · simp [Listener.act, offer, hkept.registered hreceiving, hreceiving,
            hkept.receiving.mp hreceiving]
        · have hgone : Left k acts :=
            by_contra fun hstays => hreceiving (hkept.receiving.mpr hstays)
          refine iff_of_true ?_ hgone
          simp only [Listener.act, offer, hreceiving, if_false]
          split
          · rfl
          · next h => exact Bool.eq_false_iff.mpr h
      · have hstays : ¬ Left k acts := by simp [Left, since_of_le (Nat.le_of_not_lt hk)]
        simp [hk, hstays, listener_of_le (Nat.le_of_not_lt hk)]

end Registered

/-- The bus still sends to everyone but those who had left when it published last. -/
theorem count_add_forgotten (acts : List Act) :
    (after acts).bus.count + (forgotten acts).length = subscribed acts := by
  have hregistered : ∀ k, (listener k acts).subscription.registered =
      !decide (Left k (untilPublication acts)) := by
    intro k
    rw [← decide_not, Bool.eq_iff_iff, decide_eq_true_iff, ← registered_eq_false_iff,
      Bool.not_eq_false]
  have hcount : (after acts).bus.count = ((List.range (subscribed acts)).filter
      fun k => !decide (Left k (untilPublication acts))).length := by
    unfold count
    rw [subscriptions_after, List.filter_map, List.length_map]
    congr 2
    funext k
    exact hregistered k
  have hsplit := List.length_eq_length_filter_add (l := List.range (subscribed acts))
    fun k => decide (Left k (untilPublication acts))
  rw [List.length_range] at hsplit
  unfold forgotten
  omega

/-- What a subscriber has received and can still receive is what it is due, or the beginning of
it if it was dropped, and depends on nothing but what concerns it. -/
theorem fan_out (acts : List Act) :
    (∀ k,
      (¬ Dropped k acts → received k acts ++ receivable k acts = due k acts) ∧
      received k acts <+: due k acts ∧
      ∀ acts', concerning k acts' = concerning k acts →
        received k acts' = received k acts ∧ receivable k acts' = receivable k acts) ∧
    (after acts).bus.count + (forgotten acts).length = subscribed acts := by
  refine ⟨fun k => ⟨fun hd => ?_, ?_, fun acts' hsame => ?_⟩, count_add_forgotten acts⟩
  · rw [received_eq, receivable_eq]
    exact (kept_listener k acts).all hd
  · rw [received_eq]
    exact (List.prefix_append _ _).trans (kept_listener k acts).got
  · have hlistener : listener k acts' = listener k acts := by
      unfold listener
      rw [hsame]
    rw [received_eq, received_eq, receivable_eq, receivable_eq, hlistener]
    exact ⟨rfl, rfl⟩

/-- A subscriber that closes after two of three events gets these two, as it would without the
one who is dropped and the one who comes late. -/
theorem fan_out_of_three :
    let event (n : Nat) : Event := .breakpoint ⟨n, .set, none, 1⟩
    let acts : List Act := [.subscribe, .subscribe, .publish (event 1), .drain 0, .subscribe,
      .publish (event 2), .close 0, .drop 1, .publish (event 3)]
    let alone : List Act := [.subscribe, .publish (event 1), .drain 0, .publish (event 2),
      .close 0, .publish (event 3)]
    (¬ Dropped 0 acts ∧ received 0 acts ++ receivable 0 acts = [event 1, event 2]) ∧
      (concerning 0 alone = concerning 0 acts ∧ receivable 0 alone = receivable 0 acts) ∧
      (after acts).bus.count = 1 := by
  intro event acts alone
  have hacts := fan_out acts
  have hopen : ¬ Dropped 0 acts := by decide
  have hsame : concerning 0 alone = concerning 0 acts := by decide
  have hcount : (forgotten acts).length = 2 ∧ subscribed acts = 3 := by decide
  refine ⟨⟨hopen, ((hacts.1 0).1 hopen).trans (by decide)⟩,
    ⟨hsame, ((hacts.1 0).2.2 alone hsame).2⟩, ?_⟩
  have htotal := hacts.2
  omega

end ScriptHost.EventBus
