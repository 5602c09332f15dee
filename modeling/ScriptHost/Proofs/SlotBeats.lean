import ScriptHost.IdleSlot.Callers
import ScriptHost.Proofs.PermitLine
import ScriptHost.Proofs.QueueItems

/-!
What a beat does to the idle slot. It concerns one caller or one run: a caller joins the line
or leaves it, is given the permit, or takes its request back; what is parked is picked up, and
a run comes one step further or gives the permit back. Everything else leaves the slot, the
line, the runs and the requests as they are. A run of the slot goes through such beats in any
order, and a step of its callers is one.
-/

namespace ScriptHost.IdleSlot

/-- The place in the line of a call that waits for the permit. -/
def Call.place? : Call → Option (Nat × Aim)
  | .queued ticket aim => some (ticket, aim)
  | _ => none

/-- The request that a call is about. -/
def Call.id? : Call → Option Nat
  | .queued _ aim => aim.job?.map fun job => job.request.id
  | .checking id _ | .awaiting id _ => some id

/-- The name of the call that a beat starts. -/
def Beat.asker? : Beat → Option String
  | .set name _ _ _ | .clear name | .exec name _ _ _ => some name
  | _ => none

/-- What a beat is for a request. -/
inductive Event where
  | other
  | asked (job : Job)
  | gaveUp (id : Nat)
  | parked (id : Nat)
  | picked (id : Nat)
  | started (id : Nat) (job : Job) (h : Handle)
  | ended (id : Nat) (e : Ending)

def Event.asked? : Event → Option Job
  | .asked job => some job
  | _ => none

namespace Callers

variable {c c' : Callers} {name : String} {call : Call} {id : Nat} {a a' : Active} {e : Event}
  {b : Beat}

/-- The callers in the line, in the order in which they came. -/
def line (c : Callers) : List (Nat × Aim) :=
  (c.pending.filterMap (·.2.place?)).reverse

def names (c : Callers) : List String :=
  c.pending.map Prod.fst

def event (c : Callers) : Beat → Event
  | .set _ command executor options | .exec _ command executor options =>
    .asked (c.nextJob command options executor)
  | .grant name =>
    match c.pending.lookup name with
    | some (.queued ticket aim) =>
      if c.slot.permit.granted = some ticket then
        aim.job?.elim .other fun job => .parked job.request.id
      else .other
    | _ => .other
  | .giveUp name =>
    match c.pending.lookup name with
    | some (.queued _ (.exec job)) =>
      if c.isCancelled job.request.options.token then .gaveUp job.request.id else .other
    | _ => .other
  | .drop name =>
    match c.pending.lookup name with
    | some (.queued _ aim) => aim.job?.elim .other fun job => .gaveUp job.request.id
    | _ => .other
  | .pick => c.slot.parked.elim .other fun p => .picked p.1
  | .lease id =>
    match c.running.lookup id with
    | some (.entered job frame) =>
      (c.nest.tryLease frame false).elim .other fun p => .started id job p.1
    | _ => .other
  | .reply id =>
    match c.running.lookup id with
    | some (.executing job h) => (c.execute job h).elim .other fun p => .ended id p.1
    | _ => .other
  | _ => .other

/-- How the executor of a request ends that is run with the lease `h` when the callers are at
`c`. A canned one ends as it was given. One that reports where it runs tells the depth of its
frame and of the nest, and whether the innermost lease is there to be had. One that is run by the
engine ends with the result of the invocation on the frame of its lease, or with its panic. -/
inductive Ends (c : Callers) (h : Handle) : Job → Ending → Prop
  | canned (request : Request) (e : Ending) : Ends c h { request, executor := .canned e } e
  | depth (request : Request) :
      Ends c h { request, executor := .depth }
        (.returned (.ok { output := [.int (Int64.ofNat (c.nest.frame h.frame).depth),
          .int (Int64.ofNat c.nest.depth), .bool c.nest.topFrame.isAvailable] }))
  | invoked (request : Request) (r : Evaluation)
      (hrun : (c.invocation request h).1 = some (.output r)) :
      Ends c h { request, executor := .invoke } (.returned (r.mapError .ofEngine))
  | panicked (request : Request) (p : Panic)
      (hrun : (c.invocation request h).1 = some (.panicked p)) :
      Ends c h { request, executor := .invoke } (.panicked p)

/-- One step of the run of a request, and what becomes of the requester's side of it. -/
inductive Advance (c : Callers) (id : Nat) :
    Beat → Active → Event → Active → (Cell → Cell) → Prop
  | entered (job : Job) :
      Advance c id (.enter id) (.picked job) .other (.entered job (c.nest.push .normal).1)
        fun cell => cell
  | started (job : Job) (h : Handle) :
      Advance c id (.lease id) (.entered job h.frame) (.started id job h) (.executing job h)
        fun cell => cell
  | lost (job : Job) (frame : Nat) :
      Advance c id (.lease id) (.entered job frame) .other (.leaving frame (.request job))
        fun cell => cell
  | ended (job : Job) (h : Handle) (ending : Ending) (hends : c.Ends h job ending) :
      Advance c id (.reply id) (.executing job h) (.ended id ending)
        (.leaving h.frame (.lease h)) (.deliver ending)
  | found (frame : Nat) (remnant : Remnant) (htop : c.nest.top = frame) :
      Advance c id (.leave id) (.leaving frame remnant) .other (.popping frame remnant)
        fun cell => cell
  | buried (frame : Nat) (remnant : Remnant) (htop : c.nest.top ≠ frame) :
      Advance c id (.leave id) (.leaving frame remnant) .other (.gone remnant) fun cell => cell
  | popped (frame : Nat) (remnant : Remnant) :
      Advance c id (.popFrame id) (.popping frame remnant) .other (.gone remnant) fun cell => cell
  | released (h : Handle) :
      Advance c id (.giveBack id) (.gone (.lease h)) .other .left fun cell => cell
  | dropped (job : Job) :
      Advance c id (.giveBack id) (.gone (.request job)) .other .left .abandon

/-- All that a beat can do to the slot, the line, the runs and the requests. -/
inductive Effect (c : Callers) (b : Beat) : Event → Callers → Prop
  | same {c' : Callers} (hslot : c'.slot = c.slot) (hline : c'.line = c.line)
      (hrunning : c'.running = c.running) (hcells : c'.cells = c.cells) : Effect c b .other c'
  | joined {c' : Callers} (aim : Aim)
      (hslot : c'.slot = c.slot.setPermit c.slot.permit.join.2)
      (hline : c'.line = c.line ++ [(c.slot.permit.join.1, aim)])
      (hrunning : c'.running = c.running)
      (hcells : c'.cells = c.cells ++ aim.job?.toList.map fun _ => Cell.waiting) :
      Effect c b (aim.job?.elim .other .asked) c'
  | granted {c' : Callers} (ticket : Nat) (aim : Aim) (permit : Permit)
      (before after : List (Nat × Aim)) (hlook : c.slot.permit.look ticket = some permit)
      (hold : c.line = before ++ (ticket, aim) :: after)
      (hslot : c'.slot = aim.job?.elim (c.slot.setPermit permit).clear fun job =>
        (c.slot.setPermit permit).park job.request.id job)
      (hline : c'.line = before ++ after)
      (hrunning : c'.running = c.running) (hcells : c'.cells = c.cells) :
      Effect c b (aim.job?.elim .other fun job => .parked job.request.id) c'
  | reclaimed {c' : Callers} (id : Nat) (job : Job) (hold : c.slot.parked = some (id, job))
      (hslot : c'.slot = c.slot.clear) (hline : c'.line = c.line)
      (hrunning : c'.running = c.running) (hcells : c'.cells = c.cells.modify id .abandon) :
      Effect c b .other c'
  | withdrew {c' : Callers} (ticket : Nat) (aim : Aim) (before after : List (Nat × Aim))
      (hold : c.line = before ++ (ticket, aim) :: after)
      (hslot : c'.slot = c.slot.setPermit (c.slot.permit.withdraw ticket))
      (hline : c'.line = before ++ after) (hrunning : c'.running = c.running)
      (hcells : c'.cells = aim.job?.elim c.cells fun job =>
        c.cells.modify job.request.id .abandon) :
      Effect c b (aim.job?.elim .other fun job => .gaveUp job.request.id) c'
  | picked {c' : Callers} (id : Nat) (job : Job) (hold : c.slot.parked = some (id, job))
      (hslot : c'.slot = c.slot.pickUp.2) (hline : c'.line = c.line)
      (hrunning : c'.running = (id, .picked job) :: c.running.filter (·.1 != id))
      (hcells : c'.cells = c.cells) : Effect c b (.picked id) c'
  | advanced {c' : Callers} {e : Event} (id : Nat) (a a' : Active) (f : Cell → Cell)
      (hold : c.running.lookup id = some a) (h : Advance c id b a e a' f) (hslot : c'.slot = c.slot)
      (hline : c'.line = c.line)
      (hrunning : c'.running = (id, a') :: c.running.filter (·.1 != id))
      (hcells : c'.cells = c.cells.modify id f) : Effect c b e c'
  | freed {c' : Callers} (id : Nat) (hold : c.running.lookup id = some .left)
      (hslot : c'.slot = c.slot.release) (hline : c'.line = c.line)
      (hrunning : c'.running = c.running.filter (·.1 != id)) (hcells : c'.cells = c.cells) :
      Effect c b .other c'

theorem line_keep (c : Callers) (name : String) (call : Call) :
    (c.keep name call).line = (c.forget name).line ++ call.place?.toList := by
  cases hplace : call.place? with
  | none => simp [line, keep, forget, hplace]
  | some p => simp [line, keep, forget, hplace]

/-- A pending call that leaves the line leaves the others in it as they are. -/
theorem line_forget (hnames : c.names.Nodup) (h : c.pending.lookup name = some call)
    {p : Nat × Aim} (hplace : call.place? = some p) :
    ∃ before after, c.line = before ++ p :: after ∧ (c.forget name).line = before ++ after := by
  obtain ⟨newer, older, hpending, hforget⟩ := split_of_lookup hnames h
  refine ⟨(older.filterMap (·.2.place?)).reverse, (newer.filterMap (·.2.place?)).reverse, ?_, ?_⟩
  · simp [line, hpending, hplace]
  · simp [line, forget, hforget]

theorem line_forget_of_none (hnames : c.names.Nodup) (h : c.pending.lookup name = some call)
    (hplace : call.place? = none) : (c.forget name).line = c.line := by
  obtain ⟨newer, older, hpending, hforget⟩ := split_of_lookup hnames h
  have hline : (c.forget name).pending.filterMap (·.2.place?) =
      c.pending.filterMap (·.2.place?) := by
    rw [forget, hforget, hpending]
    simp [hplace]
  exact congrArg List.reverse hline

theorem line_forget_of_fresh (hfresh : name ∉ c.names) : (c.forget name).line = c.line := by
  have hfilter : c.pending.filter (·.1 != name) = c.pending :=
    List.filter_eq_self.mpr fun p hp => by
      simpa using fun heq : p.1 = name => hfresh (heq ▸ List.mem_map_of_mem hp)
  rw [line, forget, hfilter, line]

theorem line_join (hfresh : name ∉ c.names) (aim : Aim) :
    (c.join name aim).line = c.line ++ [(c.slot.permit.join.1, aim)] :=
  (line_keep _ name _).trans (congrArg (· ++ [_]) (line_forget_of_fresh hfresh))

theorem names_forget (c : Callers) (name : String) :
    name ∉ (c.forget name).names ∧ (c.forget name).names.Sublist c.names := by
  constructor
  · intro hmem
    obtain ⟨p, hp, rfl⟩ := List.mem_map.mp hmem
    simpa using (List.mem_filter.mp hp).2
  · exact List.filter_sublist.map _

section Effects

theorem effect_grant (hnames : c.names.Nodup) (h : c.pending.lookup name = some call) :
    Effect c (.grant name) (c.event (.grant name)) (c.grant name call).2 := by
  cases call with
  | queued ticket aim =>
    obtain ⟨before, after, hold, hforget⟩ := line_forget hnames h rfl
    simp only [event, h, grant]
    by_cases hgranted : c.slot.permit.granted = some ticket
    · have hlook : c.slot.permit.look ticket = some { c.slot.permit with granted := none } :=
        if_pos hgranted
      rw [hlook, if_pos hgranted]
      cases aim with
      | set job => exact .granted ticket (.set job) _ before after hlook hold rfl hforget rfl rfl
      | clear => exact .granted ticket .clear _ before after hlook hold rfl hforget rfl rfl
      | exec job =>
        refine .granted ticket (.exec job) _ before after hlook hold rfl ?_ rfl rfl
        exact (line_keep _ name _).trans ((List.append_nil _).trans hforget)
    · have hlook : c.slot.permit.look ticket = none := if_neg hgranted
      rw [hlook, if_neg hgranted]
      exact .same rfl rfl rfl rfl
  | checking id token | awaiting id token =>
    simp only [event, h, grant]
    exact .same rfl rfl rfl rfl

theorem effect_takeBack (hline : (c.forget name).line = c.line) (id : Nat)
    (answer : Job → Answer) {otherwise : Callers} (hother : Effect c b .other otherwise) :
    Effect c b .other (c.takeBack name id answer otherwise).2 := by
  unfold takeBack
  cases hreclaim : c.slot.reclaim id with
  | none => exact hother
  | some p =>
    obtain ⟨hparked, hslot⟩ := IdleSlot.reclaim_spec hreclaim
    exact .reclaimed id p.1 hparked hslot hline rfl rfl

theorem effect_check (hnames : c.names.Nodup) (h : c.pending.lookup name = some call) :
    Effect c b .other (c.check name call).2 := by
  cases call with
  | checking id token =>
    have hforget := line_forget_of_none hnames h rfl
    have hwaiting : Effect c b .other (c.keep name (.awaiting id token)) :=
      .same rfl ((line_keep c name _).trans ((List.append_nil _).trans hforget)) rfl rfl
    simp only [check]
    split
    · exact hwaiting
    · exact effect_takeBack hforget id _ hwaiting
  | queued ticket aim | awaiting id token => exact .same rfl rfl rfl rfl

theorem effect_await (hnames : c.names.Nodup) (h : c.pending.lookup name = some call) :
    Effect c b .other (c.await name call).2 := by
  cases call with
  | awaiting id token =>
    have hforget := line_forget_of_none hnames h rfl
    simp only [await]
    split
    · exact .same rfl hforget rfl rfl
    · split
      · exact effect_takeBack hforget id _ (.same rfl rfl rfl rfl)
      · exact .same rfl rfl rfl rfl
  | queued ticket aim | checking id token => exact .same rfl rfl rfl rfl

theorem effect_leaveLine (hnames : c.names.Nodup) {ticket : Nat} {aim : Aim}
    (h : c.pending.lookup name = some (.queued ticket aim)) :
    Effect c b (aim.job?.elim .other fun job => .gaveUp job.request.id)
      (c.leaveLine name ticket aim) := by
  obtain ⟨before, after, hold, hforget⟩ := line_forget hnames h rfl
  cases aim with
  | set job | exec job => exact .withdrew ticket _ before after hold rfl hforget rfl rfl
  | clear => exact .withdrew ticket .clear before after hold rfl hforget rfl rfl

theorem effect_giveUp (hnames : c.names.Nodup) (h : c.pending.lookup name = some call) :
    Effect c (.giveUp name) (c.event (.giveUp name)) (c.giveUp name call).2 := by
  have hsame : Effect c (.giveUp name) .other c := .same rfl rfl rfl rfl
  cases call with
  | queued ticket aim =>
    cases aim with
    | exec job =>
      simp only [event, h, giveUp]
      split
      · exact effect_leaveLine hnames h
      · exact hsame
    | set job | clear =>
      simp only [event, h]
      exact hsame
  | checking id token | awaiting id token =>
    simp only [event, h]
    exact hsame

theorem effect_drop (hnames : c.names.Nodup) (h : c.pending.lookup name = some call) :
    Effect c (.drop name) (c.event (.drop name)) (c.drop name call).2 := by
  cases call with
  | queued ticket aim =>
    simp only [event, h]
    exact effect_leaveLine hnames h
  | checking id token | awaiting id token =>
    simp only [event, h]
    exact .same rfl (line_forget_of_none hnames h rfl) rfl rfl

theorem effect_pick (c : Callers) : Effect c .pick (c.event .pick) c.pick.2 := by
  unfold pick IdleSlot.pickUp event
  cases hparked : c.slot.parked with
  | none => exact .same rfl rfl rfl rfl
  | some p => exact .picked p.1 p.2 hparked rfl rfl rfl rfl

theorem effect_enter (h : c.running.lookup id = some a) :
    Effect c (.enter id) .other (c.enter id a) := by
  cases a with
  | picked job =>
    exact .advanced id _ _ _ h (.entered job) rfl rfl rfl (List.modify_id _ _).symm
  | entered _ _ | executing _ _ | leaving _ _ | popping _ _ | gone _ | left =>
    exact .same rfl rfl rfl rfl

theorem effect_lease (h : c.running.lookup id = some a) :
    Effect c (.lease id) (c.event (.lease id)) (c.lease id a) := by
  cases a with
  | entered job frame =>
    simp only [event, h, lease]
    cases htake : c.nest.tryLease frame false with
    | none => exact .advanced id _ _ _ h (.lost job frame) rfl rfl rfl (List.modify_id _ _).symm
    | some p =>
      obtain ⟨handle, nest⟩ := p
      obtain rfl : frame = handle.frame := by
        obtain ⟨q, -, hq⟩ := Option.map_eq_some_iff.mp htake
        cases hq
        rfl
      exact .advanced id _ _ _ h (.started job handle) rfl rfl rfl (List.modify_id _ _).symm
  | picked _ | executing _ _ | leaving _ _ | popping _ _ | gone _ | left =>
    simp only [event, h]
    exact .same rfl rfl rfl rfl

/-- Whatever an executor is, it touches nothing but the engine. -/
theorem execute_spec {job : Job} {h : Handle} {p : Ending × Callers}
    (hp : c.execute job h = some p) : c.Ends h job p.1 ∧ ∃ engine, p.2 = { c with engine } := by
  obtain ⟨request, executor⟩ := job
  unfold execute at hp
  cases executor with
  | canned e =>
    cases hp
    exact ⟨.canned request e, _, rfl⟩
  | depth =>
    cases hp
    exact ⟨.depth request, _, rfl⟩
  | invoke =>
    dsimp only at hp
    split at hp
    · next r hrun =>
      cases hp
      exact ⟨.invoked request r hrun, _, rfl⟩
    · next what hrun =>
      cases hp
      exact ⟨.panicked request what hrun, _, rfl⟩
    · cases hp

theorem effect_reply (h : c.running.lookup id = some a) :
    Effect c (.reply id) (c.event (.reply id)) (c.reply id a) := by
  cases a with
  | executing job handle =>
    simp only [event, h, reply]
    cases hexecute : c.execute job handle with
    | none => exact .same rfl rfl rfl rfl
    | some p =>
      obtain ⟨ending, c'⟩ := p
      obtain ⟨hends, engine, rfl⟩ := execute_spec hexecute
      exact .advanced id _ _ _ h (.ended job handle ending hends) rfl rfl rfl rfl
  | picked _ | entered _ _ | leaving _ _ | popping _ _ | gone _ | left =>
    simp only [event, h]
    exact .same rfl rfl rfl rfl

theorem effect_leave (h : c.running.lookup id = some a) :
    Effect c (.leave id) .other (c.leave id a) := by
  have hid := (List.modify_id id c.cells).symm
  cases a with
  | leaving frame remnant =>
    by_cases htop : c.nest.top = frame
    · simp only [leave, if_pos htop]
      exact .advanced id _ _ _ h (.found frame remnant htop) rfl rfl rfl hid
    · simp only [leave, if_neg htop]
      exact .advanced id _ _ _ h (.buried frame remnant htop) rfl rfl rfl hid
  | picked _ | entered _ _ | executing _ _ | popping _ _ | gone _ | left =>
    exact .same rfl rfl rfl rfl

theorem effect_popFrame (h : c.running.lookup id = some a) :
    Effect c (.popFrame id) .other (c.popFrame id a) := by
  cases a with
  | popping frame remnant =>
    exact .advanced id _ _ _ h (.popped frame remnant) rfl rfl rfl (List.modify_id _ _).symm
  | picked _ | entered _ _ | executing _ _ | leaving _ _ | gone _ | left =>
    exact .same rfl rfl rfl rfl

theorem effect_giveBack (h : c.running.lookup id = some a) :
    Effect c (.giveBack id) .other (c.giveBack id a) := by
  cases a with
  | gone remnant =>
    cases remnant with
    | lease handle =>
      exact .advanced id _ _ _ h (.released handle) rfl rfl rfl (List.modify_id _ _).symm
    | request job => exact .advanced id _ _ _ h (.dropped job) rfl rfl rfl rfl
  | picked _ | entered _ _ | executing _ _ | leaving _ _ | popping _ _ | left =>
    exact .same rfl rfl rfl rfl

theorem effect_free (h : c.running.lookup id = some a) : Effect c b .other (c.free id a) := by
  cases a with
  | left => exact .freed id h rfl rfl rfl rfl
  | picked _ | entered _ _ | executing _ _ | leaving _ _ | popping _ _ | gone _ =>
    exact .same rfl rfl rfl rfl

end Effects

/-- The turn of a caller does what it does for a pending call. -/
theorem effect_turn {f : Call → Answer × Callers}
    (hnone : c.pending.lookup name = none → e = .other)
    (h : ∀ call, c.pending.lookup name = some call → Effect c b e (f call).2) :
    Effect c b e (c.turn name f).2 := by
  unfold turn
  cases hcall : c.pending.lookup name with
  | none =>
    rw [hnone hcall]
    exact .same rfl rfl rfl rfl
  | some call => exact h call hcall

theorem effect_goOn {f : Active → Callers} (hnone : c.running.lookup id = none → e = .other)
    (h : ∀ a, c.running.lookup id = some a → Effect c b e (f a)) :
    Effect c b e (c.goOn id f) := by
  unfold goOn
  cases hactive : c.running.lookup id with
  | none =>
    rw [hnone hactive]
    exact .same rfl rfl rfl rfl
  | some a => exact h a hactive

theorem effect_of_beat (hnames : c.names.Nodup) (b : Beat)
    (hfresh : ∀ name, b.asker? = some name → name ∉ c.names) :
    Effect c b (c.event b) (c.beat b).2 := by
  have hsame : Effect c b .other c := .same rfl rfl rfl rfl
  cases b with
  | set name command executor options =>
    have hline := line_join (hfresh name rfl) (.set (c.nextJob command options executor))
    exact .joined (.set _) rfl hline rfl rfl
  | clear name => exact .joined .clear rfl (line_join (hfresh name rfl) .clear) rfl rfl
  | exec name command executor options =>
    have hline := line_join (hfresh name rfl) (.exec (c.nextJob command options executor))
    exact .joined (.exec _) rfl hline rfl rfl
  | grant name =>
    exact effect_turn (fun hnone => by simp [event, hnone]) fun _ => effect_grant hnames
  | check name => exact effect_turn (fun _ => rfl) fun _ => effect_check hnames
  | await name => exact effect_turn (fun _ => rfl) fun _ => effect_await hnames
  | giveUp name =>
    exact effect_turn (fun hnone => by simp [event, hnone]) fun _ => effect_giveUp hnames
  | drop name =>
    exact effect_turn (fun hnone => by simp [event, hnone]) fun _ => effect_drop hnames
  | pick => exact effect_pick c
  | enter id => exact effect_goOn (fun _ => rfl) fun _ => effect_enter
  | lease id => exact effect_goOn (fun hnone => by simp [event, hnone]) fun _ => effect_lease
  | reply id => exact effect_goOn (fun hnone => by simp [event, hnone]) fun _ => effect_reply
  | leave id => exact effect_goOn (fun _ => rfl) fun _ => effect_leave
  | popFrame id => exact effect_goOn (fun _ => rfl) fun _ => effect_popFrame
  | giveBack id => exact effect_goOn (fun _ => rfl) fun _ => effect_giveBack
  | free id => exact effect_goOn (fun _ => rfl) fun _ => effect_free
  | cancel token | reader on | push kind | unsubscribe => exact .same rfl rfl rfl rfl
  | result name =>
    simp only [beat]
    split
    · exact hsame
    · split
      · exact hsame
      · exact .same rfl rfl rfl rfl
  | dropResult name =>
    simp only [beat]
    split
    · exact hsame
    · exact .same rfl rfl rfl rfl
  | pop =>
    simp only [beat]
    split
    · exact .same rfl rfl rfl rfl
    · exact hsame

/-- A beat starts a call, takes one further or answers it, and leaves the others alone. -/
inductive Calling (c : Callers) (b : Beat) : Callers → Prop
  | same {c' : Callers} (hasker : b.asker? = none) (h : c'.pending = c.pending)
      (hresults : c'.results.Sublist c.results) : Calling c b c'
  | asked {c' : Callers} (name : String) (call : Call) (hasker : b.asker? = some name)
      (hid : call.id? = (c.event b).asked?.map fun job => job.request.id)
      (h : c'.pending = (name, call) :: (c.forget name).pending)
      (hresults : ∀ p ∈ c'.results, p ∈ c.results ∨ p.1 = name ∧ call.id? = some p.2) :
      Calling c b c'
  | moved {c' : Callers} (name : String) (call call' : Call) (hasker : b.asker? = none)
      (hold : c.pending.lookup name = some call) (hid : call'.id? = call.id?)
      (h : c'.pending = (name, call') :: (c.forget name).pending)
      (hresults : c'.results = c.results) : Calling c b c'
  | answered {c' : Callers} (name : String) (hasker : b.asker? = none)
      (h : c'.pending = (c.forget name).pending) (hresults : c'.results = c.results) :
      Calling c b c'

section Calling

theorem calling_grant (hb : b.asker? = none) (h : c.pending.lookup name = some call) :
    Calling c b (c.grant name call).2 := by
  cases call with
  | queued ticket aim =>
    simp only [grant]
    split
    · cases aim with
      | set job | clear => exact .answered name hb rfl rfl
      | exec job =>
        exact .moved name _ (.checking job.request.id job.request.options.token) hb h rfl rfl rfl
    · exact .same hb rfl (.refl _)
  | checking id token | awaiting id token => exact .same hb rfl (.refl _)

theorem calling_takeBack (hb : b.asker? = none) (id : Nat) (answer : Job → Answer)
    {otherwise : Callers} (h : Calling c b otherwise) :
    Calling c b (c.takeBack name id answer otherwise).2 := by
  unfold takeBack
  split
  · exact .answered name hb rfl rfl
  · exact h

theorem calling_check (hb : b.asker? = none) (h : c.pending.lookup name = some call) :
    Calling c b (c.check name call).2 := by
  cases call with
  | checking id token =>
    have hwaiting : Calling c b (c.keep name (.awaiting id token)) :=
      .moved name _ (.awaiting id token) hb h rfl rfl rfl
    simp only [check]
    split
    · exact hwaiting
    · exact calling_takeBack hb id _ hwaiting
  | queued ticket aim | awaiting id token => exact .same hb rfl (.refl _)

theorem calling_await (hb : b.asker? = none) (call : Call) :
    Calling c b (c.await name call).2 := by
  cases call with
  | awaiting id token =>
    simp only [await]
    split
    · exact .answered name hb rfl rfl
    · split
      · exact calling_takeBack hb id _ (.same hb rfl (.refl _))
      · exact .same hb rfl (.refl _)
  | queued ticket aim | checking id token => exact .same hb rfl (.refl _)

theorem calling_leaveLine (hb : b.asker? = none) (ticket : Nat) (aim : Aim) :
    Calling c b (c.leaveLine name ticket aim) := by
  cases aim <;> exact .answered name hb rfl rfl

theorem calling_giveUp (hb : b.asker? = none) (call : Call) :
    Calling c b (c.giveUp name call).2 := by
  unfold giveUp
  split
  · split
    · exact calling_leaveLine hb _ _
    · exact .same hb rfl (.refl _)
  · exact .same hb rfl (.refl _)

theorem calling_drop (hb : b.asker? = none) (call : Call) :
    Calling c b (c.drop name call).2 := by
  unfold drop
  split
  · exact calling_leaveLine hb _ _
  · exact .answered name hb rfl rfl

theorem calling_turn (hb : b.asker? = none) {f : Call → Answer × Callers}
    (h : ∀ call, c.pending.lookup name = some call → Calling c b (f call).2) :
    Calling c b (c.turn name f).2 := by
  unfold turn
  cases hcall : c.pending.lookup name with
  | none => exact .same hb rfl (.refl _)
  | some call => exact h call hcall

end Calling

/-- A run comes further without the callers. -/
theorem calling_goOn {b : Beat} (hb : b.asker? = none) {f : Active → Callers}
    (h : ∀ a, Calling c b (f a)) : Calling c b (c.goOn id f) := by
  unfold goOn
  cases c.running.lookup id with
  | none => exact .same hb rfl (.refl _)
  | some a => exact h a

theorem calling_of_beat (c : Callers) (b : Beat) : Calling c b (c.beat b).2 := by
  have hsame : b.asker? = none → Calling c b c := fun hb => .same hb rfl (.refl _)
  cases b with
  | set name command executor options =>
    refine .asked name _ rfl rfl rfl fun p hp => ?_
    rcases List.mem_cons.mp hp with rfl | hp
    · exact .inr ⟨rfl, rfl⟩
    · exact .inl (List.mem_of_mem_filter hp)
  | clear name => exact .asked name _ rfl rfl rfl fun p hp => .inl hp
  | exec name command executor options => exact .asked name _ rfl rfl rfl fun p hp => .inl hp
  | grant name => exact calling_turn rfl fun _ => calling_grant rfl
  | check name => exact calling_turn rfl fun _ => calling_check rfl
  | await name => exact calling_turn rfl fun call _ => calling_await rfl call
  | giveUp name => exact calling_turn rfl fun call _ => calling_giveUp rfl call
  | drop name => exact calling_turn rfl fun call _ => calling_drop rfl call
  | cancel token | reader on | push kind | unsubscribe => exact .same rfl rfl (.refl _)
  | pick =>
    simp only [beat, pick]
    split <;> exact .same rfl rfl (.refl _)
  | enter id | leave id | popFrame id | free id =>
    refine calling_goOn rfl fun a => ?_
    cases a <;> exact .same rfl rfl (.refl _)
  | giveBack id =>
    refine calling_goOn rfl fun a => ?_
    unfold giveBack
    split <;> exact .same rfl rfl (.refl _)
  | lease id =>
    refine calling_goOn rfl fun a => ?_
    unfold lease
    split
    · split <;> exact .same rfl rfl (.refl _)
    · exact hsame rfl
  | reply id =>
    refine calling_goOn rfl fun a => ?_
    unfold reply
    split
    · split
      · next ending c' hexecute =>
        obtain ⟨-, engine, rfl⟩ := execute_spec hexecute
        exact .same rfl rfl (.refl _)
      · exact hsame rfl
    · exact hsame rfl
  | result name =>
    simp only [beat]
    split
    · exact hsame rfl
    · split
      · exact hsame rfl
      · exact .same rfl rfl List.filter_sublist
  | dropResult name =>
    simp only [beat]
    split
    · exact hsame rfl
    · exact .same rfl rfl List.filter_sublist
  | pop =>
    simp only [beat]
    split
    · exact .same rfl rfl (.refl _)
    · exact hsame rfl

/-- The beats so far, the last one first, each with the state before it. -/
abbrev History := List (Callers × Beat)

/-- The names of the calls that were started. -/
def askers (past : History) : List String :=
  past.filterMap (·.2.asker?)

/-- Beats in any order. Every call is started under a name of its own. -/
inductive Run : History → Callers → Prop
  | start (engine : Engine) : Run [] { engine }
  | beat {past : History} {c : Callers} (h : Run past c) (b : Beat)
      (hfresh : ∀ name, b.asker? = some name → name ∉ askers past) :
      Run ((c, b) :: past) (c.beat b).2

variable {past : History}

theorem mem_askers_cons {b : Beat} :
    name ∈ askers ((c, b) :: past) ↔ b.asker? = some name ∨ name ∈ askers past := by
  unfold askers
  cases hb : b.asker? <;> simp [hb, eq_comm]

/-- The pending calls have different names, under which they were started. -/
theorem names_of_run (h : Run past c) : c.names.Nodup ∧ ∀ name ∈ c.names, name ∈ askers past := by
  induction h with
  | start engine => exact ⟨.nil, List.forall_mem_nil _⟩
  | beat h b hfresh ih =>
    rename_i past c
    obtain ⟨hnodup, hnames⟩ := ih
    have hsub : ∀ name ∈ askers past, name ∈ askers ((c, b) :: past) :=
      fun name hmem => mem_askers_cons.mpr (.inr hmem)
    have hrest : ∀ name, (c.forget name).names.Nodup ∧
        ∀ other ∈ (c.forget name).names, other ∈ askers ((c, b) :: past) := fun name =>
      ⟨hnodup.sublist (c.names_forget name).2, fun other hmem =>
        hsub other (hnames other ((c.names_forget name).2.subset hmem))⟩
    have hkeep : ∀ name call, name ∈ askers ((c, b) :: past) →
        (c.beat b).2.pending = (name, call) :: (c.forget name).pending →
        (c.beat b).2.names.Nodup ∧
          ∀ other ∈ (c.beat b).2.names, other ∈ askers ((c, b) :: past) := by
      intro name call hname hpending
      have hcons : (c.beat b).2.names = name :: (c.forget name).names :=
        congrArg (List.map Prod.fst) hpending
      rw [hcons]
      refine ⟨List.nodup_cons.mpr ⟨(c.names_forget name).1, (hrest name).1⟩, ?_⟩
      rintro other hmem
      rcases List.mem_cons.mp hmem with rfl | hmem
      · exact hname
      · exact (hrest name).2 other hmem
    cases calling_of_beat c b with
    | same hasker hpending hresults =>
      have hsame : (c.beat b).2.names = c.names := congrArg (List.map Prod.fst) hpending
      rw [hsame]
      exact ⟨hnodup, fun name hmem => hsub name (hnames name hmem)⟩
    | asked name call hasker hid hpending hresults =>
      exact hkeep name call (mem_askers_cons.mpr (.inl hasker)) hpending
    | moved name call call' hasker hold hid hpending hresults =>
      refine hkeep name call' (hsub name (hnames name ?_)) hpending
      exact List.mem_map_of_mem (mem_of_lookup hnodup hold)
    | answered name hasker hpending hresults =>
      have hsame : (c.beat b).2.names = (c.forget name).names :=
        congrArg (List.map Prod.fst) hpending
      rw [hsame]
      exact hrest name

/-- What the last beat of a run does. -/
theorem effect_of_run {b : Beat} (h : Run ((c, b) :: past) c') :
    Run past c ∧ c' = (c.beat b).2 ∧ Effect c b (c.event b) c' := by
  cases h with
  | beat h b hfresh =>
    obtain ⟨hnodup, hnames⟩ := names_of_run h
    exact ⟨h, rfl, effect_of_beat hnodup b fun name hasker hmem =>
      hfresh name hasker (hnames name hmem)⟩

theorem run_of_quiet {bs : List Beat} (h : Run past c) (hquiet : ∀ b ∈ bs, b.asker? = none) :
    ∃ later, Run (later ++ past) (c.beats bs).2 := by
  induction bs generalizing past c with
  | nil => exact ⟨[], h⟩
  | cons b bs ih =>
    obtain ⟨hb, hbs⟩ := List.forall_mem_cons.mp hquiet
    have hbeat := h.beat b fun name hasker => nomatch hb.symm.trans hasker
    unfold beats
    split
    · next c' hpending =>
      rw [hpending] at hbeat
      obtain ⟨later, hlater⟩ := ih hbeat hbs
      exact ⟨later ++ [(c, b)], by simpa using hlater⟩
    · exact ⟨[(c, b)], hbeat⟩

/-- Beats of which only the first may start a call, until one has an answer. -/
theorem run_of_beats {b : Beat} {bs : List Beat} (h : Run past c)
    (hfresh : ∀ name, b.asker? = some name → name ∉ askers past)
    (hquiet : ∀ b ∈ bs, b.asker? = none) : ∃ later, Run (later ++ past) (c.beats (b :: bs)).2 := by
  have hbeat := h.beat b hfresh
  unfold beats
  split
  · next c' hpending =>
    rw [hpending] at hbeat
    obtain ⟨later, hlater⟩ := run_of_quiet hbeat hquiet
    exact ⟨later ++ [(c, b)], by simpa using hlater⟩
  · exact ⟨[(c, b)], hbeat⟩

theorem polling_quiet (name : String) : ∀ b ∈ polling name, b.asker? = none := by
  simp [polling, Beat.asker?]

/-- A step of the callers is a run of beats. -/
theorem run_of_step (h : Run past c) (s : Step)
    (hfresh : ∀ b ∈ c.beatsOf s, ∀ name, b.asker? = some name → name ∉ askers past) :
    ∃ later, Run (later ++ past) (c.step s).2 := by
  cases s with
  | set name _ _ _ | clear name | exec name _ _ _ =>
    exact run_of_beats h (hfresh _ List.mem_cons_self) (polling_quiet name)
  | poll name => exact run_of_quiet h (polling_quiet name)
  | idle =>
    refine run_of_quiet h (List.forall_mem_cons.mpr ⟨rfl, ?_⟩)
    cases c.slot.parked with
    | none => exact List.forall_mem_nil _
    | some p => simp [Beat.asker?]
  | result _ | dropResult _ | drop _ | cancel _ | reader _ | push _ | pop | unsubscribe =>
    exact run_of_quiet h (by simp [beatsOf, Beat.asker?])

/-- Beats in a row, whatever they answer. -/
def follow : History → Callers → List Beat → History × Callers
  | past, c, [] => (past, c)
  | past, c, b :: bs => follow ((c, b) :: past) (c.beat b).2 bs

theorem run_of_follow (h : Run past c) (bs : List Beat)
    (hfresh : (askers past ++ bs.filterMap Beat.asker?).Nodup) :
    Run (follow past c bs).1 (follow past c bs).2 := by
  induction bs generalizing past c with
  | nil => exact h
  | cons b bs ih =>
    refine ih (h.beat b fun name hasker hmem => ?_) ?_
    · rw [List.filterMap_cons_some hasker] at hfresh
      exact List.disjoint_of_nodup_append hfresh hmem List.mem_cons_self
    · cases hasker : b.asker? with
      | none => simpa [askers, hasker] using hfresh
      | some name =>
        rw [List.filterMap_cons_some hasker, List.nodup_middle] at hfresh
        simpa [askers, hasker] using hfresh

end Callers

end ScriptHost.IdleSlot
