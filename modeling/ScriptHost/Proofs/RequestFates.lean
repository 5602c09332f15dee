import ScriptHost.Proofs.ParkingOrder
import ScriptHost.Proofs.RequestFrames

/-!
The fate of a request of the idle slot. A request is picked up and run once at most. Its
requester gets it back as it was made, or learns that it was dropped, and then it never runs;
or it gets the reply of its executor, which ran once, in a frame of its own. Requests are
parked in the order in which their callers asked, without those whose callers left the line.
-/

namespace ScriptHost.IdleSlot

/-- The caller that a beat answers. -/
def Beat.caller? : Beat → Option String
  | .grant name | .check name | .await name | .giveUp name | .drop name | .result name
  | .dropResult name => some name
  | _ => none

/-- Whether an answer tells a requester what became of its request. -/
def Answer.isFate : Answer → Bool
  | .reply _ | .reclaimed _ _ => true
  | _ => false

namespace Callers

variable {c c' : Callers} {past : History} {b : Beat} {name : String} {job : Job} {id : Nat}
  {e : Event}

theorem asker_mem (h : Asked past name job) : name ∈ askers past :=
  let ⟨m, hm, hasker, _⟩ := h
  List.mem_filterMap.mpr ⟨m, hm, hasker⟩

theorem asked_cons (h : Asked ((c, b) :: past) name job) :
    (b.asker? = some name ∧ c.event b = .asked job) ∨ Asked past name job := by
  obtain ⟨m, hm, hasked⟩ := h
  rcases List.mem_cons.mp hm with rfl | hm
  · exact .inl hasked
  · exact .inr ⟨m, hm, hasked⟩

theorem Effect.length_le (he : Effect c b e c') : c.cells.length ≤ c'.cells.length := by
  cases he with
  | joined aim hslot hline hrunning hcells =>
    rw [hcells, List.length_append]
    exact Nat.le_add_right _ _
  | withdrew ticket aim before after hold hslot hline hrunning hcells =>
    rw [hcells]
    cases aim <;> simp [Aim.job?]
  | same _ _ _ hcells | granted _ _ _ _ _ _ _ _ _ _ hcells | picked _ _ _ _ _ _ hcells
  | freed _ _ _ _ _ hcells => exact hcells ▸ le_rfl
  | reclaimed _ _ _ _ _ _ hcells | advanced _ _ _ _ _ _ _ _ _ hcells =>
    exact hcells ▸ (List.length_modify _ _ _).ge

theorem Effect.cells_of_asked (he : Effect c b e c') (h : e = .asked job) :
    c'.cells = c.cells ++ [.waiting] := by
  cases he with
  | joined aim hslot hline hrunning hcells =>
    cases aim with
    | set job | exec job => exact hcells
    | clear => cases h
  | granted ticket aim | withdrew ticket aim => cases aim <;> cases h
  | advanced id a a' f hold hadvance => cases hadvance <;> cases h
  | same | reclaimed | picked | freed => cases h

theorem asked_lt (h : Run past c) (hasked : Asked past name job) :
    job.request.id < c.cells.length := by
  induction h with
  | start engine =>
    obtain ⟨m, hm, -⟩ := hasked
    cases hm
  | beat h b hfresh ih =>
    have heffect := (effect_of_run (h.beat b hfresh)).2.2
    rcases asked_cons hasked with ⟨-, hevent⟩ | hasked
    · rw [(asked_spec hevent).2, heffect.cells_of_asked hevent, List.length_append]
      exact Nat.lt_succ_self _
    · exact (ih hasked).trans_le heffect.length_le

/-- A call is started with one request, and a request by one call. -/
theorem asked_unique (h : Run past c) {name' : String} {job' : Job} (hasked : Asked past name job)
    (hasked' : Asked past name' job') (heq : name = name' ∨ job.request.id = job'.request.id) :
    job = job' := by
  induction h generalizing name name' job job' with
  | start engine =>
    obtain ⟨m, hm, -⟩ := hasked
    cases hm
  | beat h b hfresh ih =>
    rename_i past c
    have hnew : ∀ {name name' job job'}, b.asker? = some name → c.event b = .asked job →
        Asked past name' job' → ¬(name = name' ∨ job.request.id = job'.request.id) := by
      rintro name name' job job' hasker hevent hasked (rfl | hid)
      · exact hfresh name hasker (asker_mem hasked)
      · have hlt := asked_lt h hasked
        rw [← hid, (asked_spec hevent).2] at hlt
        exact Nat.lt_irrefl _ hlt
    rcases asked_cons hasked with ⟨hasker, hevent⟩ | hold
    · rcases asked_cons hasked' with ⟨-, hevent'⟩ | hold'
      · cases hevent.symm.trans hevent'
        rfl
      · exact absurd heq (hnew hasker hevent hold')
    · rcases asked_cons hasked' with ⟨hasker', hevent'⟩ | hold'
      · exact absurd (heq.imp Eq.symm Eq.symm) (hnew hasker' hevent' hold)
      · exact ih hold hold' heq

/-- A pending call, and a kept result, are about the request with which the call was started. -/
structure Owned (past : History) (c : Callers) : Prop where
  call : ∀ p ∈ c.pending, ∀ id, p.2.id? = some id → ∃ job, Asked past p.1 job ∧ job.request.id = id
  result : ∀ p ∈ c.results, ∃ job, Asked past p.1 job ∧ job.request.id = p.2

theorem owned_of_run (h : Run past c) : Owned past c := by
  induction h with
  | start engine => exact ⟨List.forall_mem_nil _, List.forall_mem_nil _⟩
  | beat h b hfresh ih =>
    rename_i past c
    have hcall : ∀ p ∈ c.pending, ∀ id, p.2.id? = some id →
        ∃ job, Asked ((c, b) :: past) p.1 job ∧ job.request.id = id := fun p hp id hid =>
      (ih.call p hp id hid).imp fun _ hjob => ⟨hjob.1.mono, hjob.2⟩
    have hresult : ∀ p ∈ c.results, ∃ job, Asked ((c, b) :: past) p.1 job ∧
        job.request.id = p.2 := fun p hp =>
      (ih.result p hp).imp fun _ hjob => ⟨hjob.1.mono, hjob.2⟩
    have hforget : ∀ {name : String} {p : String × Call}, p ∈ (c.forget name).pending →
        p ∈ c.pending := List.mem_of_mem_filter
    cases calling_of_beat c b with
    | same hasker hpending hresults =>
      exact ⟨hpending ▸ hcall, fun p hp => hresult p (hresults.subset hp)⟩
    | answered name hasker hpending hresults =>
      exact ⟨hpending ▸ fun p hp => hcall p (hforget hp), hresults ▸ hresult⟩
    | moved name call call' hasker hold hid hpending hresults =>
      refine ⟨fun p hp id hp' => ?_, hresults ▸ hresult⟩
      rw [hpending] at hp
      rcases List.mem_cons.mp hp with rfl | hp
      · exact hcall (name, call) (mem_of_lookup (names_of_run h).1 hold) id (hid ▸ hp')
      · exact hcall p (hforget hp) id hp'
    | asked name call hasker hid hpending hresults =>
      have hnew : ∀ id, call.id? = some id →
          ∃ job, Asked ((c, b) :: past) name job ∧ job.request.id = id := by
        intro id hcall
        obtain ⟨job, hevent, hjob⟩ := Option.map_eq_some_iff.mp (hid.symm.trans hcall)
        refine ⟨job, ⟨(c, b), List.mem_cons_self, hasker, ?_⟩, hjob⟩
        cases hb : c.event b <;> simp [hb, Event.asked?] at hevent
        rw [hevent]
      refine ⟨fun p hp id hp' => ?_, fun p hp => ?_⟩
      · rw [hpending] at hp
        rcases List.mem_cons.mp hp with rfl | hp
        · exact hnew id hp'
        · exact hcall p (hforget hp) id hp'
      · rcases hresults p hp with hp | ⟨rfl, hp⟩
        · exact hresult p hp
        · exact hnew p.2 hp

/-- An answer about `job` agrees with the requester's side of it. -/
inductive Told (c : Callers) (job : Job) : Answer → Prop
  | replied (cell : Cell) (r : Reply) (hcell : c.cells[job.request.id]? = some cell)
      (hpoll : cell.poll = some r) : Told c job (.reply r)
  | reclaimed (hcell : c.cells[job.request.id]? = some .dropped) :
      Told c job (.reclaimed job.request.command job.request.options)

theorem Advance.settled {a a' : Active} {f : Cell → Cell} (h : Advance c id b a e a' f)
    {cell : Cell} (hcell : cell ≠ .waiting) : f cell = cell := by
  cases h with
  | entered | started | lost | found | buried | popped | released => rfl
  | ended | dropped => cases cell <;> first | rfl | exact absurd rfl hcell

/-- The requester's side of a request stays as it is once the request was replied to or
dropped. -/
theorem Effect.cell_settled (he : Effect c b e c') {cell : Cell} (h : c.cells[id]? = some cell)
    (hcell : cell ≠ .waiting) : c'.cells[id]? = some cell := by
  have habandon : cell.abandon = cell := by
    cases cell <;> first | rfl | exact absurd rfl hcell
  have hmodify : ∀ (i : Nat) (f : Cell → Cell), f cell = cell →
      (c.cells.modify i f)[id]? = some cell := by
    intro i f hf
    rw [List.getElem?_modify, h]
    by_cases hi : i = id <;> simp [hi, hf]
  cases he with
  | same _ _ _ hcells | granted _ _ _ _ _ _ _ _ _ _ hcells | picked _ _ _ _ _ _ hcells
  | freed _ _ _ _ _ hcells => exact hcells ▸ h
  | joined aim hslot hline hrunning hcells =>
    rw [hcells, List.getElem?_append_left (List.getElem?_eq_some_iff.mp h).1]
    exact h
  | reclaimed i job hold hslot hline hrunning hcells =>
    rw [hcells]
    exact hmodify i .abandon habandon
  | withdrew ticket aim before after hold hslot hline hrunning hcells =>
    rw [hcells]
    cases aim with
    | set job | exec job => exact hmodify _ .abandon habandon
    | clear => exact h
  | advanced i a a' f hold hadvance hslot hline hrunning hcells =>
    rw [hcells]
    exact hmodify i f (hadvance.settled hcell)

theorem Told.extend {answer : Answer} (h : c.Told job answer) (he : Effect c b e c') :
    c'.Told job answer := by
  cases h with
  | replied cell r hcell hpoll =>
    have hsettled : cell ≠ .waiting := by
      rintro rfl
      cases hpoll
    exact .replied cell r (he.cell_settled hcell hsettled) hpoll
  | reclaimed hcell => exact .reclaimed (he.cell_settled hcell nofun)

/-- What a call is about is the request with which it was started. -/
theorem Owned.of_lookup {call : Call} (h : Owned past c) (hnames : c.names.Nodup)
    (hcall : c.pending.lookup name = some call) (hid : call.id? = some id) :
    ∃ job, Asked past name job ∧ job.request.id = id :=
  h.call (name, call) (mem_of_lookup hnames hcall) id hid

/-- A live request that a call is about is the one with which the call was started. -/
theorem Ledger.live_eq (h : Run past c) {p : Job × Record} (hp : p ∈ c.live)
    (hasked : Asked past name job) (hid : job.request.id = p.1.request.id) :
    p.1 = job ∧ c.cells[job.request.id]? = some .waiting := by
  obtain ⟨⟨name', hasked'⟩, hcell, -⟩ := (ledger_of_run h).live_ok p hp
  exact ⟨asked_unique h hasked' hasked (.inr hid.symm), hid ▸ hcell⟩

theorem told_takeBack (h : Run past c) (hasked : Asked past name job)
    {answer : Job → Answer} {otherwise : Callers}
    (hanswer : ∀ c' : Callers, c'.cells[job.request.id]? = some .dropped → c'.Told job (answer job))
    (hfate : (c.takeBack name job.request.id answer otherwise).1.isFate = true) :
    (c.takeBack name job.request.id answer otherwise).2.Told job
      (c.takeBack name job.request.id answer otherwise).1 := by
  unfold takeBack at hfate ⊢
  split at hfate
  · next job' slot hreclaim =>
    obtain ⟨hparked, -⟩ := IdleSlot.reclaim_spec hreclaim
    have hlive : job'.entry ∈ c.live := by
      simp [live, unpicked, hparked]
    have hid : job'.request.id = job.request.id := (keyed_of_run h).parked _ hparked
    obtain ⟨heq, hcell⟩ := Ledger.live_eq h hlive hasked hid.symm
    obtain rfl : job' = job := heq
    refine hanswer _ ?_
    change (c.cells.modify job'.request.id .abandon)[job'.request.id]? = some .dropped
    rw [List.getElem?_modify_eq, hcell]
    rfl
  · cases hfate

theorem told_turn {f : Call → Answer × Callers} (hfate : (c.turn name f).1.isFate = true)
    (h : ∀ call, c.pending.lookup name = some call → (f call).1.isFate = true →
      ∃ job, Asked past name job ∧ (f call).2.Told job (f call).1) :
    ∃ job, Asked past name job ∧ (c.turn name f).2.Told job (c.turn name f).1 := by
  unfold turn at hfate ⊢
  cases hcall : c.pending.lookup name with
  | none =>
    rw [hcall] at hfate
    cases hfate
  | some call =>
    rw [hcall] at hfate
    exact h call hcall hfate

/-- Whoever gets an answer about a request asked for that request. -/
theorem told_of_beat (h : Run past c) (hcaller : b.caller? = some name)
    (hfate : (c.beat b).1.isFate = true) :
    ∃ job, Asked past name job ∧ (c.beat b).2.Told job (c.beat b).1 := by
  have howned := owned_of_run h
  have hnames := (names_of_run h).1
  cases b with
  | grant name' =>
    cases hcaller
    refine told_turn hfate fun call hcall hfate => ?_
    unfold grant at hfate
    split at hfate
    · next ticket aim =>
      split at hfate
      · cases aim <;> cases hfate
      · cases hfate
    · cases hfate
  | check name' =>
    cases hcaller
    refine told_turn hfate fun call hcall hfate => ?_
    cases call with
    | checking id token =>
      obtain ⟨job, hasked, rfl⟩ := howned.of_lookup hnames hcall rfl
      simp only [check] at hfate ⊢
      split at hfate
      · cases hfate
      · next hreading =>
        rw [if_neg hreading]
        exact ⟨job, hasked, told_takeBack h hasked (fun c' hcell => .reclaimed hcell) hfate⟩
    | queued ticket aim | awaiting id token => cases hfate
  | await name' =>
    cases hcaller
    refine told_turn hfate fun call hcall hfate => ?_
    cases call with
    | awaiting id token =>
      obtain ⟨job, hasked, rfl⟩ := howned.of_lookup hnames hcall rfl
      refine ⟨job, hasked, ?_⟩
      have hcell := List.getElem?_eq_getElem (asked_lt h hasked)
      simp only [await] at hfate ⊢
      split at hfate
      · next r hpoll =>
        rw [hcell, Option.getD_some] at hpoll
        exact .replied _ r hcell hpoll
      · split at hfate
        · next hcancelled =>
          rw [if_pos hcancelled]
          exact told_takeBack h hasked (fun c' hcell => .replied .dropped _ hcell rfl) hfate
        · cases hfate
    | queued ticket aim | checking id token => cases hfate
  | giveUp name' =>
    cases hcaller
    refine told_turn hfate fun call hcall hfate => ?_
    unfold giveUp at hfate ⊢
    split at hfate
    · next ticket job' =>
      split at hfate
      · next hcancelled =>
        obtain ⟨job, hasked, hid⟩ := howned.of_lookup hnames hcall rfl
        obtain ⟨before, after, hline, -⟩ := line_forget hnames hcall rfl
        have hlive : job'.entry ∈ c.live := by
          simp [live, unpicked, lineJobs, hline, Aim.job?]
        obtain ⟨heq, hcell⟩ := Ledger.live_eq h hlive hasked hid
        obtain rfl : job' = job := heq
        rw [if_pos hcancelled]
        refine ⟨job', hasked, .replied .dropped _ ?_ rfl⟩
        change (c.cells.modify job'.request.id .abandon)[job'.request.id]? = some .dropped
        rw [List.getElem?_modify_eq, hcell]
        rfl
      · cases hfate
    · cases hfate
  | drop name' =>
    cases hcaller
    refine told_turn hfate fun call hcall hfate => ?_
    unfold drop at hfate
    split at hfate <;> cases hfate
  | result name' =>
    cases hcaller
    simp only [beat] at hfate ⊢
    split at hfate
    · cases hfate
    · next id hresult =>
      obtain ⟨before, after, hresults, -⟩ := List.lookup_eq_some_iff.mp hresult
      have hmem : (name, id) ∈ c.results := hresults ▸ List.mem_append_right _ List.mem_cons_self
      obtain ⟨job, hasked, hid⟩ := howned.result _ hmem
      obtain rfl : job.request.id = id := hid
      have hcell := List.getElem?_eq_getElem (asked_lt h hasked)
      split at hfate
      · cases hfate
      · next r hpoll =>
        rw [hcell, Option.getD_some] at hpoll
        exact ⟨job, hasked, .replied _ r hcell hpoll⟩
  | dropResult name' =>
    simp only [beat] at hfate
    split at hfate <;> cases hfate
  | set _ _ _ _ | clear _ | exec _ _ _ _ | cancel _ | pick | enter _ | lease _ | reply _ | leave _
  | popFrame _ | giveBack _ | free _ | reader _ | push _ | pop | unsubscribe => cases hcaller

theorem told_of_run (h : Run past c) {m : Callers × Beat} (hm : m ∈ past)
    (hcaller : m.2.caller? = some name) (hfate : (m.1.beat m.2).1.isFate = true) :
    ∃ job, Asked past name job ∧ c.Told job (m.1.beat m.2).1 := by
  induction h with
  | start engine => cases hm
  | beat h b hfresh ih =>
    rcases List.mem_cons.mp hm with rfl | hm
    · obtain ⟨job, hasked, htold⟩ := told_of_beat h hcaller hfate
      exact ⟨job, hasked.mono, htold⟩
    · obtain ⟨job, hasked, htold⟩ := ih hm
      exact ⟨job, hasked.mono, htold.extend (effect_of_run (h.beat b hfresh)).2.2⟩

/-- What was done with a request whose requester is told `answer`. -/
inductive Fate (past : History) (job : Job) : Answer → Prop
  | reclaimed (h : (record past job.request.id).starts = []) :
      Fate past job (.reclaimed job.request.command job.request.options)
  | dropped (h : (record past job.request.id).starts = []) :
      Fate past job (.reply (.error .cancelled))
  | ran (handle : Handle) (ending : Ending) (hran : Ran past job handle ending)
      (h : record past job.request.id =
        { picks := 1, starts := [(job, handle)], endings := [ending] }) :
      Fate past job (.reply ending.reply)

theorem Told.fate (h : Run past c) (hasked : Asked past name job) {answer : Answer}
    (htold : c.Told job answer) : Fate past job answer := by
  have hentry := (ledger_of_run h).entries job.request.id
  cases htold with
  | replied cell r hcell hpoll =>
    rw [hcell] at hentry
    cases hentry with
    | waiting p hp hid => cases hpoll
    | replied name' job' handle ending hasked' hid hran hrecord =>
      obtain rfl := asked_unique h hasked' hasked (.inr hid)
      cases hpoll
      exact .ran handle ending hran hrecord
    | dropped picks hle hrecord =>
      cases hpoll
      exact .dropped (by rw [hrecord])
  | reclaimed hcell =>
    rw [hcell] at hentry
    cases hentry with
    | dropped picks hle hrecord => exact .reclaimed (by rw [hrecord])

theorem live_le {p : Job × Record} (hp : p ∈ c.live) :
    p.2.picks ≤ 1 ∧ p.2.starts.length ≤ 1 := by
  rcases List.mem_append.mp hp with hp | hp
  · obtain ⟨job, -, rfl⟩ := List.mem_map.mp hp
    exact ⟨Nat.zero_le 1, Nat.zero_le 1⟩
  · obtain ⟨⟨i, a⟩, -, hentry⟩ := List.mem_filterMap.mp hp
    cases a with
    | picked job | entered job frame =>
      cases hentry
      exact ⟨le_rfl, Nat.zero_le 1⟩
    | leaving frame remnant | popping frame remnant | gone remnant =>
      cases remnant with
      | lease handle => cases hentry
      | request job =>
        cases hentry
        exact ⟨le_rfl, Nat.zero_le 1⟩
    | executing job handle =>
      cases hentry
      exact ⟨le_rfl, le_rfl⟩
    | left => cases hentry

/-- A request is picked up once and run once, if at all. -/
theorem record_le (h : Run past c) (id : Nat) :
    (record past id).picks ≤ 1 ∧ (record past id).starts.length ≤ 1 := by
  have hledger := ledger_of_run h
  have hentry := hledger.entries id
  generalize c.cells[id]? = cell at hentry
  cases hentry with
  | unmade hrecord =>
    rw [hrecord]
    exact ⟨Nat.zero_le 1, Nat.zero_le 1⟩
  | waiting p hp hid =>
    obtain ⟨-, -, hrecord⟩ := hledger.live_ok p hp
    rw [← hid, hrecord]
    exact live_le hp
  | replied name job handle ending hasked hid hran hrecord =>
    rw [hrecord]
    exact ⟨le_rfl, le_rfl⟩
  | dropped picks hle hrecord =>
    rw [hrecord]
    exact ⟨hle, Nat.zero_le 1⟩

theorem started_of_record {handle : Handle} (h : (job, handle) ∈ (record past id).starts) :
    ∃ m ∈ past, m.1.event m.2 = .started id job handle := by
  induction past with
  | nil => cases h
  | cons m past ih =>
    have hpast : (job, handle) ∈ (record past id).starts →
        ∃ x ∈ m :: past, x.1.event x.2 = .started id job handle := fun h =>
      let ⟨x, hx, hstarted⟩ := ih h
      ⟨x, List.mem_cons_of_mem m hx, hstarted⟩
    change (job, handle) ∈ ((m.1.event m.2).note id (record past id)).starts at h
    cases hevent : m.1.event m.2 with
    | started i job' handle' =>
      rw [hevent, Event.note] at h
      split at h
      · next hi =>
        rcases List.mem_cons.mp h with heq | h
        · cases heq
          exact ⟨m, List.mem_cons_self, hi ▸ hevent⟩
        · exact hpast h
      · exact hpast h
    | picked i | ended i ending =>
      rw [hevent, Event.note] at h
      split at h <;> exact hpast h
    | other | asked job' | gaveUp i | parked i =>
      rw [hevent] at h
      exact hpast h

/-- On every run a request is picked up and run at most once. Whoever is told what became of a
request had asked for it, and then either nothing ran for it, and it was handed back or dropped,
or its executor ran once and came to the reply. What ran did so in a frame pushed for it on the
innermost one, and kept the permit until that frame was left. Requests are parked in the order
in which they were asked for, without those that were given up in the line. -/
theorem one_fate_each (h : Run past c) :
    (∀ id, (record past id).picks ≤ 1 ∧ (record past id).starts.length ≤ 1) ∧
      (∀ m ∈ past, ∀ name, m.2.caller? = some name → (m.1.beat m.2).1.isFate = true →
        ∃ job, Asked past name job ∧ Fate past job (m.1.beat m.2).1) ∧
      (∀ id job handle, (job, handle) ∈ (record past id).starts →
        ∃ x, Pushed past id handle.frame x ∧
          (c.holders = [.running id] ∨ LeftFrame past c id handle x.1.nest.above)) ∧
      idsOf Event.parked? past <+:
        (idsOf Event.askedId? past).filter (· ∉ idsOf Event.gaveUp? past) := by
  refine ⟨record_le h, fun m hm name hcaller hfate => ?_, fun id job handle hstart => ?_, ?_⟩
  · obtain ⟨job, hasked, htold⟩ := told_of_run h hm hcaller hfate
    exact ⟨job, hasked, htold.fate h hasked⟩
  · obtain ⟨m, hm, hstarted⟩ := started_of_record hstart
    obtain ⟨x, hpushed, hactive | hleft⟩ := framed_of_run h hm hstarted
    · obtain ⟨a, hactive, -⟩ := hactive
      exact ⟨x, hpushed, .inl ((held_of_run h).holders_of_running hactive)⟩
    · exact ⟨x, hpushed, .inr hleft⟩
  · rw [← (inOrder_of_run h).order]
    exact List.prefix_append _ _

/-- A caller of a canned executor who is told of a panic is told of the one that was given. -/
theorem Fate.ran_canned {e : Ending} {what : String}
    (h : Fate past job (.reply (.error (.panicked what)))) (hexecutor : job.executor = .canned e) :
    ∃ handle, Ran past job handle e ∧ e.reply = .error (.panicked what) := by
  generalize hanswer : Answer.reply (.error (.panicked what)) = answer at h
  cases h with
  | reclaimed hstarts | dropped hstarts => cases hanswer
  | ran handle ending hran hrecord =>
    obtain ⟨m, hm, hbeat, hlookup, hends⟩ := hran
    obtain rfl : ending = e := by
      cases hends <;> cases hexecutor
      rfl
    exact ⟨handle, ⟨m, hm, hbeat, hlookup, hends⟩, (Answer.reply.inj hanswer).symm⟩

/-- A request panics in a frame of its own, and its caller is told of that panic. The request of
the next one, whose caller was dropped in the line, is never parked. -/
theorem one_fate_each_panicked :
    ∃ (past : History) (c : Callers) (m : Callers × Beat) (job : Job) (handle : Handle),
      Run past c ∧ m ∈ past ∧ (m.1.beat m.2).1.isFate = true ∧
      Asked past "a" job ∧ job.executor = .canned (.panicked .twoItems) ∧
      Fate past job (m.1.beat m.2).1 ∧ Ran past job handle (.panicked .twoItems) ∧
      (m.1.beat m.2).1 = .reply (.error (.panicked "single-slot queue held two items")) ∧
      (record past 0).starts.length = 1 ∧ (record past 1).starts.length ≤ 1 ∧
      idsOf Event.parked? past = [0] ∧
      idsOf Event.parked? past <+:
        (idsOf Event.askedId? past).filter (· ∉ idsOf Event.gaveUp? past) := by
  have hrun := run_of_follow (.start {})
    ([.reader true, .exec "a" (.ofScript "a") (.canned (.panicked .twoItems)) {}, .grant "a",
      .check "a", .set "b" (.ofScript "b") .depth {}, .drop "b", .pick, .enter 0, .lease 0,
      .reply 0, .leave 0, .popFrame 0, .giveBack 0, .free 0, .await "a"]) (by decide)
  obtain ⟨honce, hfates, -, horder⟩ := one_fate_each hrun
  obtain ⟨job, hasked, hfate⟩ := hfates _ List.mem_cons_self "a" rfl rfl
  have hexecutor : job.executor = .canned (.panicked .twoItems) := by
    rw [← asked_unique hrun ⟨_, List.mem_of_getElem? (i := 13) rfl, rfl, rfl⟩ hasked (.inl rfl)]
    rfl
  obtain ⟨handle, hran, -⟩ := Fate.ran_canned hfate hexecutor
  exact ⟨_, _, _, job, handle, hrun, List.mem_cons_self, rfl, hasked, hexecutor, hfate, hran, rfl,
    rfl, (honce 1).2, by decide +kernel, horder⟩

end Callers

end ScriptHost.IdleSlot
