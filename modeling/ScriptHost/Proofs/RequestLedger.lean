import ScriptHost.Proofs.SlotHolders

/-!
The ledger of the requests of the idle slot. A request whose requester still waits is in one
place: with a caller in the line, parked, or running. A request that was replied to was picked
up once and ran once, and its reply is what its executor came to; one that was dropped never
ran. No beat changes any of this for a request that was replied to or dropped.
-/

namespace ScriptHost.IdleSlot

/-- What was done with a request: how often it was picked up, what ran for it with which lease,
and what came of that. -/
structure Record where
  picks : Nat := 0
  starts : List (Job × Handle) := []
  endings : List Ending := []

/-- A request for which nothing was done yet. -/
def Job.entry (job : Job) : Job × Record :=
  (job, {})

/-- The record of the request `id` after one more event. -/
def Event.note (e : Event) (id : Nat) (r : Record) : Record :=
  match e with
  | .picked i => if i = id then { r with picks := r.picks + 1 } else r
  | .started i job h => if i = id then { r with starts := (job, h) :: r.starts } else r
  | .ended i ending => if i = id then { r with endings := ending :: r.endings } else r
  | _ => r

def Remnant.owed? : Remnant → Option (Job × Record)
  | .lease _ => none
  | .request job => some (job, { picks := 1 })

/-- The request that is still running, and what was done with it. -/
def Active.owed? : Active → Option (Job × Record)
  | .picked job | .entered job _ => some (job, { picks := 1 })
  | .executing job h => some (job, { picks := 1, starts := [(job, h)] })
  | .leaving _ remnant | .popping _ remnant | .gone remnant => remnant.owed?
  | .left => none

namespace Callers

variable {c c' : Callers} {past : History} {b : Beat} {name : String} {job : Job}

def record (past : History) (id : Nat) : Record :=
  past.foldr (fun m r => (m.1.event m.2).note id r) {}

/-- The call `name` was started with the request `job`. -/
def Asked (past : History) (name : String) (job : Job) : Prop :=
  ∃ m ∈ past, m.2.asker? = some name ∧ m.1.event m.2 = .asked job

theorem Asked.mono {m : Callers × Beat} (h : Asked past name job) : Asked (m :: past) name job :=
  let ⟨x, hx, hasked⟩ := h
  ⟨x, List.mem_cons_of_mem m hx, hasked⟩

/-- The executor of `job` was run for it, with the lease `h`, and came to `ending`. -/
def Ran (past : History) (job : Job) (h : Handle) (ending : Ending) : Prop :=
  ∃ m ∈ past, m.2 = .reply job.request.id ∧
    m.1.running.lookup job.request.id = some (.executing job h) ∧ m.1.Ends h job ending

/-- The requests that callers in the line have with them. -/
def lineJobs (c : Callers) : List Job :=
  c.line.filterMap (·.2.job?)

/-- The requests that were not picked up yet. -/
def unpicked (c : Callers) : List (Job × Record) :=
  (c.lineJobs ++ c.slot.parked.toList.map Prod.snd).map Job.entry

/-- The requests whose requesters still wait, with what was done so far. -/
def live (c : Callers) : List (Job × Record) :=
  c.unpicked ++ c.running.filterMap (·.2.owed?)

/-- A parked or running request is named by its own id. -/
structure Keyed (c : Callers) : Prop where
  parked : ∀ p, c.slot.parked = some p → p.2.request.id = p.1
  running : ∀ p ∈ c.running, ∀ q, p.2.owed? = some q → q.1.request.id = p.1

/-- How the record of a request agrees with the requester's side of it. -/
inductive Entry (past : History) (live : List (Job × Record)) (id : Nat) : Option Cell → Prop
  | unmade (h : record past id = {}) : Entry past live id none
  | waiting (p : Job × Record) (hp : p ∈ live) (hid : p.1.request.id = id) :
      Entry past live id (some .waiting)
  | replied (name : String) (job : Job) (handle : Handle) (ending : Ending)
      (hasked : Asked past name job) (hid : job.request.id = id)
      (hran : Ran past job handle ending)
      (h : record past id = { picks := 1, starts := [(job, handle)], endings := [ending] }) :
      Entry past live id (some (.replied ending.reply))
  | dropped (picks : Nat) (hle : picks ≤ 1) (h : record past id = { picks }) :
      Entry past live id (some .dropped)

structure Ledger (past : History) (c : Callers) : Prop where
  nodup : (c.live.map (·.1.request.id)).Nodup
  live_ok : ∀ p ∈ c.live, (∃ name, Asked past name p.1) ∧
    c.cells[p.1.request.id]? = some .waiting ∧ record past p.1.request.id = p.2
  entries : ∀ id, Entry past c.live id c.cells[id]?

theorem Keyed.of_places (h : c.Keyed) (hparked : c'.slot.parked = c.slot.parked)
    (hrunning : c'.running = c.running) : c'.Keyed :=
  ⟨hparked ▸ h.parked, hrunning ▸ h.running⟩

theorem Advance.entry {id : Nat} {a a' : Active} {e : Event} {f : Cell → Cell}
    (h : Advance c id b a e a' f) {q : Job × Record} (hq : a'.owed? = some q) :
    ∃ r, a.owed? = some (q.1, r) := by
  cases h with
  | entered job | started job handle | lost job frame =>
    cases hq
    exact ⟨_, rfl⟩
  | found frame remnant | buried frame remnant | popped frame remnant => exact ⟨q.2, hq⟩
  | ended job handle ending hends | released handle | dropped job => cases hq

theorem Keyed.effect {e : Event} (h : c.Keyed) (hheld : c.Held) (he : Effect c b e c') :
    c'.Keyed := by
  cases he with
  | same hslot hline hrunning hcells => exact h.of_places (by rw [hslot]) hrunning
  | joined aim hslot hline hrunning hcells => exact h.of_places (by rw [hslot]; rfl) hrunning
  | withdrew ticket aim before after hold hslot hline hrunning hcells =>
    exact h.of_places (by rw [hslot]; rfl) hrunning
  | granted ticket aim permit before after hlook hold hslot hline hrunning hcells =>
    refine ⟨fun p hp => ?_, hrunning ▸ h.running⟩
    rw [hslot] at hp
    cases aim with
    | set job | exec job =>
      cases hp
      rfl
    | clear => cases hp
  | reclaimed id job hold hslot hline hrunning hcells =>
    refine ⟨fun p hp => ?_, hrunning ▸ h.running⟩
    rw [hslot] at hp
    cases hp
  | picked id job hold hslot hline hrunning hcells =>
    refine ⟨fun p hp => ?_, ?_⟩
    · rw [hslot] at hp
      cases hp
    · rw [hrunning, hheld.running_nil hold]
      rintro p hp q hq
      obtain rfl := List.mem_singleton.mp hp
      cases hq
      exact h.parked _ hold
  | advanced id a a' f hold hadvance hslot hline hrunning hcells =>
    have hactive := hheld.running_eq hold
    refine ⟨by rw [hslot]; exact h.parked, fun p hp q hq => ?_⟩
    rw [hrunning, hactive] at hp
    obtain rfl : p = (id, a') := by simpa using hp
    obtain ⟨r, hentry⟩ := hadvance.entry hq
    exact h.running (id, a) (hactive ▸ List.mem_singleton_self _) (q.1, r) hentry
  | freed id hold hslot hline hrunning hcells =>
    refine ⟨by rw [hslot]; exact h.parked, fun p hp => ?_⟩
    rw [hrunning] at hp
    exact h.running p (List.mem_of_mem_filter hp)

theorem keyed_of_run (h : Run past c) : c.Keyed := by
  induction h with
  | start engine => exact ⟨fun _ hp => (nomatch hp), List.forall_mem_nil _⟩
  | beat h b hfresh ih => exact ih.effect (held_of_run h) (effect_of_run (h.beat b hfresh)).2.2

theorem Entry.keep {live live' : List (Job × Record)} {id : Nat} {cell : Option Cell}
    (h : Entry past live id cell) (hnote : ∀ r, (c.event b).note id r = r)
    (hlive : ∀ p ∈ live, p.1.request.id = id → p ∈ live') :
    Entry ((c, b) :: past) live' id cell := by
  have hrecord : record ((c, b) :: past) id = record past id := hnote _
  cases h with
  | unmade h => exact .unmade (hrecord.trans h)
  | waiting p hp hid => exact .waiting p (hlive p hp hid) hid
  | replied name job handle ending hasked hid hran h =>
    obtain ⟨x, hx, hran⟩ := hran
    exact .replied name job handle ending hasked.mono hid ⟨x, List.mem_cons_of_mem _ hx, hran⟩
      (hrecord.trans h)
  | dropped picks hle h => exact .dropped picks hle (hrecord.trans h)

/-- The request of `id` moves in the ledger, and the others stay as they are. -/
theorem Ledger.change (h : c.Ledger past) (id : Nat) (old new : Option (Job × Record))
    {rest : List (Job × Record)} (hold : c.live.Perm (old.toList ++ rest))
    (hnew : c'.live.Perm (new.toList ++ rest)) (hrest : ∀ p ∈ rest, p.1.request.id ≠ id)
    (hid : ∀ p ∈ old, p.1.request.id = id)
    (hcells : ∀ i, i ≠ id → c'.cells[i]? = c.cells[i]?)
    (hnote : ∀ i, i ≠ id → ∀ r, (c.event b).note i r = r)
    (hlive : ∀ p ∈ new, p.1.request.id = id ∧ (∃ name, Asked ((c, b) :: past) name p.1) ∧
      c'.cells[id]? = some .waiting ∧ record ((c, b) :: past) id = p.2)
    (hentry : Entry ((c, b) :: past) c'.live id c'.cells[id]?) : c'.Ledger ((c, b) :: past) := by
  have hother : ∀ p ∈ rest, p ∈ c.live ∧ p ∈ c'.live := fun p hp =>
    ⟨hold.mem_iff.mpr (List.mem_append_right _ hp), hnew.mem_iff.mpr (List.mem_append_right _ hp)⟩
  refine ⟨?_, fun p hp => ?_, fun i => ?_⟩
  · have hnodup := (hold.map (·.1.request.id)).nodup_iff.mp h.nodup
    rw [List.map_append] at hnodup
    refine ((hnew.map (·.1.request.id)).nodup_iff).mpr ?_
    rw [List.map_append]
    cases new with
    | none => exact hnodup.of_append_right
    | some p =>
      refine List.nodup_cons.mpr ⟨fun hmem => ?_, hnodup.of_append_right⟩
      obtain ⟨q, hq, heq⟩ := List.mem_map.mp hmem
      exact hrest q hq (heq.trans (hlive p rfl).1)
  · rcases List.mem_append.mp (hnew.mem_iff.mp hp) with hp | hp
    · obtain ⟨rfl, hlive⟩ := hlive p (Option.mem_toList.mp hp)
      exact hlive
    · have hne := hrest p hp
      obtain ⟨⟨name, hasked⟩, hcell, hrecord⟩ := h.live_ok p (hother p hp).1
      exact ⟨⟨name, hasked.mono⟩, (hcells _ hne).trans hcell, (hnote _ hne _).trans hrecord⟩
  · by_cases hi : i = id
    · exact hi ▸ hentry
    · rw [hcells i hi]
      refine (h.entries i).keep (hnote i hi) fun p hp hp' => ?_
      rcases List.mem_append.mp (hold.mem_iff.mp hp) with hp | hp
      · exact absurd (hp'.symm.trans (hid p (Option.mem_toList.mp hp))) hi
      · exact (hother p hp).2

/-- No request moves in the ledger. -/
theorem Ledger.same (h : c.Ledger past) (hlive : c'.live.Perm c.live)
    (hcells : c'.cells = c.cells) (hnote : ∀ i r, (c.event b).note i r = r) :
    c'.Ledger ((c, b) :: past) := by
  refine ⟨((hlive.map _).nodup_iff).mpr h.nodup, fun p hp => ?_, fun i => ?_⟩
  · obtain ⟨⟨name, hasked⟩, hcell, hrecord⟩ := h.live_ok p (hlive.mem_iff.mp hp)
    exact ⟨⟨name, hasked.mono⟩, hcells ▸ hcell, (hnote _ _).trans hrecord⟩
  · rw [hcells]
    exact (h.entries i).keep (hnote i) fun p hp _ => hlive.mem_iff.mpr hp

/-- A request is new when it is asked for, and someone asked for it. -/
theorem asked_spec (h : c.event b = .asked job) :
    (∃ name, b.asker? = some name) ∧ job.request.id = c.cells.length := by
  cases b with
  | set name _ _ _ | exec name _ _ _ =>
    cases h
    exact ⟨⟨name, rfl⟩, rfl⟩
  | grant name =>
    simp only [event] at h
    split at h
    · next ticket aim _ =>
      split at h
      · cases aim <;> cases h
      · cases h
    · cases h
  | giveUp name =>
    simp only [event] at h
    split at h
    · split at h <;> cases h
    · cases h
  | drop name =>
    simp only [event] at h
    split at h
    · next aim _ => cases aim <;> cases h
    · cases h
  | pick =>
    simp only [event] at h
    cases hparked : c.slot.parked <;> simp [hparked] at h
  | lease id =>
    simp only [event] at h
    split at h
    · next job frame _ => cases htake : c.nest.tryLease frame false <;> simp [htake] at h
    · cases h
  | reply id =>
    simp only [event] at h
    split at h
    · next job' handle _ => cases hexecute : c.execute job' handle <;> simp [hexecute] at h
    · cases h
  | clear _ | check _ | await _ | result _ | dropResult _ | cancel _ | enter _ | leave _
  | popFrame _ | giveBack _ | free _ | reader _ | push _ | pop | unsubscribe => cases h

/-- The requester's side of a live request, and that of no other one. -/
theorem Ledger.split (h : c.Ledger past) {r : Record} {rest : List (Job × Record)}
    (hold : c.live.Perm ((job, r) :: rest)) :
    c.cells[job.request.id]? = some .waiting ∧ (∃ name, Asked past name job) ∧
      record past job.request.id = r ∧ ∀ p ∈ rest, p.1.request.id ≠ job.request.id := by
  obtain ⟨hasked, hcell, hrecord⟩ := h.live_ok (job, r) (hold.mem_iff.mpr List.mem_cons_self)
  have hnodup := (hold.map (·.1.request.id)).nodup_iff.mp h.nodup
  rw [List.map_cons, List.nodup_cons] at hnodup
  exact ⟨hcell, hasked, hrecord, fun p hp heq => hnodup.1 (heq ▸ List.mem_map_of_mem hp)⟩

/-- More is done for a request, and its requester waits on. -/
theorem Ledger.advance (h : c.Ledger past) {r r' : Record} {rest : List (Job × Record)}
    (hold : c.live.Perm ((job, r) :: rest)) (hnew : c'.live.Perm ((job, r') :: rest))
    (hcells : c'.cells = c.cells) (hself : (c.event b).note job.request.id r = r')
    (hnote : ∀ i, i ≠ job.request.id → ∀ s, (c.event b).note i s = s) :
    c'.Ledger ((c, b) :: past) := by
  obtain ⟨hcell, ⟨name, hasked⟩, hrecord, hrest⟩ := h.split hold
  have hrecord' : record ((c, b) :: past) job.request.id = r' := by rw [← hself, ← hrecord]; rfl
  refine h.change job.request.id (some (job, r)) (some (job, r')) hold hnew hrest
    ?_ (fun i _ => by rw [hcells]) hnote ?_ ?_
  · rintro p ⟨⟩
    rfl
  · rintro p ⟨⟩
    exact ⟨rfl, ⟨name, hasked.mono⟩, hcells ▸ hcell, hrecord'⟩
  · rw [hcells, hcell]
    exact .waiting (job, r') (hnew.mem_iff.mpr List.mem_cons_self) rfl

/-- A request is replied to or dropped. -/
theorem Ledger.settle (h : c.Ledger past) {r : Record} {rest : List (Job × Record)}
    {f : Cell → Cell} (hold : c.live.Perm ((job, r) :: rest)) (hnew : c'.live.Perm rest)
    (hcells : c'.cells = c.cells.modify job.request.id f)
    (hnote : ∀ i, i ≠ job.request.id → ∀ s, (c.event b).note i s = s)
    (hentry : ∀ name, Asked ((c, b) :: past) name job →
      record ((c, b) :: past) job.request.id = (c.event b).note job.request.id r →
      Entry ((c, b) :: past) c'.live job.request.id (some (f .waiting))) :
    c'.Ledger ((c, b) :: past) := by
  obtain ⟨hcell, ⟨name, hasked⟩, hrecord, hrest⟩ := h.split hold
  refine h.change job.request.id (some (job, r)) none hold hnew hrest
    ?_ (fun i hi => ?_) hnote (fun _ hp => nomatch hp) ?_
  · rintro p ⟨⟩
    rfl
  · exact hcells ▸ List.getElem?_modify_ne _ _ (Ne.symm hi)
  · rw [hcells, List.getElem?_modify_eq, hcell]
    exact hentry name hasked.mono (hrecord ▸ rfl)

/-- A request is dropped before anything ran for it. -/
theorem Ledger.drop (h : c.Ledger past) {picks : Nat} {rest : List (Job × Record)}
    (hold : c.live.Perm ((job, { picks }) :: rest)) (hnew : c'.live.Perm rest)
    (hcells : c'.cells = c.cells.modify job.request.id .abandon) (hle : picks ≤ 1)
    (hnote : ∀ i s, (c.event b).note i s = s) : c'.Ledger ((c, b) :: past) :=
  h.settle hold hnew hcells (fun i _ => hnote i) fun _ _ hrecord =>
    .dropped picks hle (hrecord.trans (hnote _ _))

theorem live_of_running {id : Nat} {a : Active} (h : c.running = [(id, a)]) :
    c.live = c.unpicked ++ a.owed?.toList := by
  rw [live, h]
  cases hentry : a.owed? <;> simp [hentry]

theorem live_of_idle (h : c.running = []) : c.live = c.unpicked := by
  rw [live, h]
  exact List.append_nil _

theorem Ledger.advanced (h : c.Ledger past) (hkeyed : c.Keyed) {id : Nat} {a a' : Active}
    {f : Cell → Cell} (hactive : c.running = [(id, a)]) (hactive' : c'.running = [(id, a')])
    (hunpicked : c'.unpicked = c.unpicked) (hadvance : Advance c id b a (c.event b) a' f)
    (hcells : c'.cells = c.cells.modify id f) : c'.Ledger ((c, b) :: past) := by
  have hold := live_of_running hactive
  have hnew := live_of_running hactive'
  rw [hunpicked] at hnew
  have hid : ∀ job r, a.owed? = some (job, r) → job.request.id = id := fun job r =>
    hkeyed.running (id, a) (hactive ▸ List.mem_singleton_self _) (job, r)
  have hperm : ∀ {n : Callers} {p : Job × Record}, n.live = c.unpicked ++ [p] →
      n.live.Perm (p :: c.unpicked) := fun heq => heq ▸ List.perm_append_singleton _ _
  have hnone : ∀ {n : Callers}, n.live = c.unpicked ++ [] → n.live.Perm c.unpicked :=
    fun heq => by rw [heq, List.append_nil]
  generalize hevent : c.event b = e at hadvance
  have hsame : a'.owed? = a.owed? → e = .other → c'.cells = c.cells.modify id (fun cell => cell) →
      c'.Ledger ((c, b) :: past) := by
    rintro howed rfl hcells
    refine h.same (by rw [hnew, hold, howed]) (hcells.trans (List.modify_id _ _))
      fun i r => by rw [hevent]; rfl
  cases hadvance with
  | entered job | lost job frame => exact hsame rfl rfl hcells
  | found frame remnant | buried frame remnant | popped frame remnant => exact hsame rfl rfl hcells
  | released handle => exact hsame rfl rfl hcells
  | started job handle =>
    obtain rfl := hid job _ rfl
    refine h.advance (hperm hold) (hperm hnew) ?_ ?_ fun i hi s => ?_
    · rw [hcells]
      exact List.modify_id _ _
    · rw [hevent]
      exact if_pos rfl
    · rw [hevent]
      exact if_neg (Ne.symm hi)
  | dropped job =>
    obtain rfl := hid job _ rfl
    exact h.drop (hperm hold) (hnone hnew) hcells le_rfl
      fun i s => by rw [hevent]; rfl
  | ended job handle ending hends =>
    obtain rfl := hid job _ rfl
    refine h.settle (hperm hold) (hnone hnew) hcells (fun i hi s => ?_)
      fun name hasked hrecord => ?_
    · rw [hevent]
      exact if_neg (Ne.symm hi)
    · rw [hevent] at hrecord
      exact .replied name job handle _ hasked rfl
        ⟨_, List.mem_cons_self, rfl, by simp [hactive], hends⟩
        (hrecord.trans (if_pos rfl))

/-- A new request joins the line. -/
theorem Ledger.ask (h : c.Ledger past) (hevent : c.event b = .asked job)
    (hlive : c'.live.Perm (job.entry :: c.live)) (hcells : c'.cells = c.cells ++ [.waiting]) :
    c'.Ledger ((c, b) :: past) := by
  obtain ⟨⟨name, hasker⟩, hid⟩ := asked_spec hevent
  have hnote : ∀ i r, (c.event b).note i r = r := fun i r => by rw [hevent]; rfl
  have hcell : c'.cells[c.cells.length]? = some .waiting := by rw [hcells]; simp
  have hrecord : record ((c, b) :: past) c.cells.length = {} := by
    have hunmade := h.entries c.cells.length
    rw [List.getElem?_eq_none le_rfl] at hunmade
    cases hunmade with
    | unmade hrecord => exact (hnote _ _).trans hrecord
  refine h.change c.cells.length none (some job.entry) (.refl _) hlive
    (fun p hp heq => ?_) (fun _ hp => nomatch hp) (fun i hi => ?_) (fun i _ => hnote i) ?_ ?_
  · have hlive := (h.live_ok p hp).2.1
    rw [heq, List.getElem?_eq_none le_rfl] at hlive
    cases hlive
  · rw [hcells]
    rcases Nat.lt_or_gt_of_ne hi with hlt | hgt
    · exact List.getElem?_append_left hlt
    · rw [List.getElem?_eq_none hgt.le, List.getElem?_eq_none]
      rw [List.length_append, List.length_singleton]
      exact hgt
  · rintro p ⟨⟩
    exact ⟨hid, ⟨name, (c, b), List.mem_cons_self, hasker, hevent⟩, hcell, hrecord⟩
  · rw [hcell]
    exact .waiting job.entry (hlive.mem_iff.mpr List.mem_cons_self) hid

theorem lineJobs_of_line {ticket : Nat} {aim : Aim} {before after : List (Nat × Aim)}
    (h : c.line = before ++ (ticket, aim) :: after) :
    c.lineJobs =
      before.filterMap (·.2.job?) ++ (aim.job?.toList ++ after.filterMap (·.2.job?)) := by
  rw [lineJobs, h, List.filterMap_append, List.filterMap_cons]
  cases aim <;> rfl

theorem lineJobs_of_rest {before after : List (Nat × Aim)} (h : c.line = before ++ after) :
    c.lineJobs = before.filterMap (·.2.job?) ++ after.filterMap (·.2.job?) := by
  rw [lineJobs, h, List.filterMap_append]

theorem Ledger.effect (h : c.Ledger past) (hheld : c.Held) (hkeyed : c.Keyed)
    (he : Effect c b (c.event b) c') : c'.Ledger ((c, b) :: past) := by
  generalize hevent : c.event b = e at he
  have hother : e = .other → ∀ i r, (c.event b).note i r = r := by
    rintro rfl i r
    rw [hevent]
    rfl
  cases he with
  | same hslot hline hrunning hcells =>
    refine h.same ?_ hcells (hother rfl)
    rw [live, unpicked, lineJobs, hline, hslot, hrunning]
    exact .refl _
  | joined aim hslot hline hrunning hcells =>
    have hjobs : c'.lineJobs = c.lineJobs ++ aim.job?.toList :=
      (lineJobs_of_line hline).trans (by simp [lineJobs])
    have hlive : c'.live.Perm (aim.job?.toList.map Job.entry ++ c.live) := by
      rw [live, live, unpicked, unpicked, hjobs, hslot, hrunning]
      simp only [List.map_append, List.append_assoc, IdleSlot.setPermit]
      exact List.perm_append_comm_assoc _ _ _
    cases aim with
    | set job | exec job => exact h.ask hevent hlive hcells
    | clear => exact h.same hlive (hcells.trans (List.append_nil _)) (hother rfl)
  | granted ticket aim permit before after hlook hold hslot hline hrunning hcells =>
    obtain ⟨rfl, hparked, hidle, -⟩ := hheld.granted hlook hold
    refine h.same ?_ hcells fun i r => by rw [hevent]; cases aim <;> rfl
    rw [live_of_idle hidle, live_of_idle (hrunning.trans hidle), unpicked, unpicked,
      lineJobs_of_line hold, lineJobs_of_rest hline, hparked, hslot]
    cases aim with
    | set job | exec job =>
      have hperm : (after.filterMap (·.2.job?) ++ [job]).Perm
          ([job] ++ after.filterMap (·.2.job?) ++ []) := by
        rw [List.append_nil]
        exact List.perm_append_comm
      exact hperm.map Job.entry
    | clear => exact .refl _
  | reclaimed id job hold hslot hline hrunning hcells =>
    have hidle := hheld.running_nil hold
    obtain rfl : job.request.id = id := hkeyed.parked _ hold
    have hlive : c.live.Perm (job.entry :: c.lineJobs.map Job.entry) := by
      rw [live_of_idle hidle, unpicked, hold]
      exact List.Perm.map Job.entry (List.perm_append_singleton job _)
    refine h.drop hlive ?_ hcells (Nat.zero_le 1) (hother rfl)
    rw [live_of_idle (hrunning.trans hidle), unpicked, lineJobs, hline, hslot]
    exact .of_eq (congrArg (List.map Job.entry) (List.append_nil _))
  | withdrew ticket aim before after hold hslot hline hrunning hcells =>
    have hlive : c.live.Perm (aim.job?.toList.map Job.entry ++ c'.live) := by
      rw [live, live, unpicked, unpicked, lineJobs_of_line hold, lineJobs_of_rest hline, hslot,
        hrunning]
      simp only [List.map_append, List.append_assoc, IdleSlot.setPermit]
      exact List.perm_append_comm_assoc _ _ _
    cases aim with
    | set job | exec job =>
      exact h.drop hlive (.refl _) hcells (Nat.zero_le 1) fun i r => by rw [hevent]; rfl
    | clear => exact h.same hlive.symm hcells (hother rfl)
  | picked id job hold hslot hline hrunning hcells =>
    have hidle := hheld.running_nil hold
    have hactive : c'.running = [(id, .picked job)] := by simpa [hidle] using hrunning
    obtain rfl : job.request.id = id := hkeyed.parked _ hold
    have hlive : c.live.Perm (job.entry :: c.lineJobs.map Job.entry) := by
      rw [live_of_idle hidle, unpicked, hold]
      exact List.Perm.map Job.entry (List.perm_append_singleton job _)
    have hlive' : c'.live.Perm ((job, { picks := 1 }) :: c.lineJobs.map Job.entry) := by
      rw [live_of_running hactive, unpicked, lineJobs, hline, hslot]
      exact (List.append_nil c.lineJobs).symm ▸ List.perm_append_singleton _ _
    refine h.advance hlive hlive' hcells ?_ fun i hi s => ?_
    · rw [hevent]
      exact if_pos rfl
    · rw [hevent]
      exact if_neg (Ne.symm hi)
  | advanced id a a' f hold hadvance hslot hline hrunning hcells =>
    have hactive := hheld.running_eq hold
    refine h.advanced hkeyed hactive ?_ ?_ (hevent ▸ hadvance) hcells
    · simpa [hactive] using hrunning
    · rw [unpicked, lineJobs, hline, hslot]
      rfl
  | freed id hold hslot hline hrunning hcells =>
    have hactive := hheld.running_eq hold
    have hidle : c'.running = [] := by simpa [hactive] using hrunning
    refine h.same ?_ hcells (hother rfl)
    rw [live_of_idle hidle, live_of_running hactive, unpicked, lineJobs, hline, hslot]
    exact (List.append_nil c.unpicked).symm ▸ .refl _

theorem ledger_of_run (h : Run past c) : c.Ledger past := by
  induction h with
  | start engine => exact ⟨.nil, List.forall_mem_nil _, fun id => .unmade rfl⟩
  | beat h b hfresh ih =>
    exact ih.effect (held_of_run h) (keyed_of_run h) (effect_of_run (h.beat b hfresh)).2.2

end Callers

end ScriptHost.IdleSlot
