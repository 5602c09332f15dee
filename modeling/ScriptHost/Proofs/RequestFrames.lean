import ScriptHost.Proofs.FrameStack
import ScriptHost.Proofs.SlotHolders

/-!
The frames in which the requests of the idle slot run. The frame is pushed for the request on
whatever frame is innermost then, the request runs with the lease of that frame, and the frame
is left before the request gives the permit back. When the nest is then as the push left it,
this pops the frame, and the nest is as it was before the push.
-/

namespace ScriptHost

namespace Nest

variable {n n' n'' : Nest} {i : Nat}

/-- A frame that was popped stays popped. -/
theorem Standing.isPopped_of_change (hs : n.Standing) (h : n.Change n')
    (hi : (n.frame i).isPopped = true) : (n'.frame i).isPopped = true := by
  cases h with
  | served ha => exact (ha.isPopped i).trans hi
  | pushed kind =>
    have hmade : i < n.frames.length := by
      by_contra hnot
      rw [frame_of_not_made (Nat.le_of_not_lt hnot)] at hi
      cases hi
    rw [frame_push_of_lt kind hmade]
    exact hi
  | popped hpop =>
    rename_i j
    by_cases hij : i = j
    · rw [hij, Frame.isPopped, hs.queue_of_pop hpop]
      rfl
    · rw [frame_of_pop_ne hpop hij]
      exact hi

/-- What steps in a row do to a nest. -/
structure Onward (n n' : Nest) : Prop where
  standing : n.Standing → n'.Standing
  popped : ∀ i, n.Standing → (n.frame i).isPopped = true → (n'.frame i).isPopped = true

theorem Onward.refl (n : Nest) : n.Onward n :=
  ⟨fun h => h, fun _ _ h => h⟩

theorem Onward.trans (h : n.Onward n') (h' : n'.Onward n'') : n.Onward n'' :=
  ⟨fun hs => h'.standing (h.standing hs),
    fun i hs hi => h'.popped i (h.standing hs) (h.popped i hs hi)⟩

theorem Change.onward (h : n.Change n') : n.Onward n' :=
  ⟨fun hs => hs.change h, fun _ hs => hs.isPopped_of_change h⟩

end Nest

namespace IdleSlot

/-- The frame pushed for a request that is to run. -/
def Active.frame? : Active → Option Nat
  | .entered _ frame => some frame
  | .executing _ h => some h.frame
  | _ => none

/-- Whether the executor of a request begins. -/
def Event.isStart : Event → Bool
  | .started _ _ _ => true
  | _ => false

namespace Callers

variable {c c' : Callers} {past : History} {b : Beat} {name : String} {id : Nat}

theorem nest_turn {f : Call → Answer × Callers} (h : ∀ call, (f call).2.nest = c.nest) :
    (c.turn name f).2.nest = c.nest := by
  unfold turn
  cases c.pending.lookup name with
  | none => rfl
  | some call => exact h call

theorem nest_goOn {f : Active → Callers} (h : ∀ a, c.nest.Onward (f a).nest) :
    c.nest.Onward (c.goOn id f).nest := by
  unfold goOn
  cases c.running.lookup id with
  | none => exact .refl _
  | some a => exact h a

theorem nest_takeBack (answer : Job → Answer) {otherwise : Callers}
    (h : otherwise.nest = c.nest) : (c.takeBack name id answer otherwise).2.nest = c.nest := by
  unfold takeBack
  split
  · rfl
  · exact h

theorem onward_setReader (c : Callers) (on : Bool) :
    c.nest.Onward (c.setReader on).2.nest := by
  have htake : ∀ taken : Option (Handle × Nest),
      (∀ p, taken = some p → c.nest.tryLease c.nest.top true = some p) →
      c.nest.Onward ((taken.map Prod.snd).getD c.nest) := by
    intro taken htaken
    cases taken with
    | none => exact .refl _
    | some p => exact (Nest.Change.served (Nest.alike_tryLease (htaken p rfl)).2).onward
  have hgive : ∀ n : Nest, n.Onward ((c.reader.map fun h => (n.release h).1).getD n) := by
    intro n
    cases c.reader with
    | none => exact .refl _
    | some h => exact (Nest.Change.served (Nest.alike_release n h)).onward
  refine (htake _ fun p hp => ?_).trans (hgive _)
  cases on with
  | true => exact hp
  | false => cases hp

theorem onward_of_beat (c : Callers) (b : Beat) : c.nest.Onward (c.beat b).2.nest := by
  have hsame : ∀ {n : Nest}, n = c.nest → c.nest.Onward n := fun heq => heq ▸ .refl _
  cases b with
  | grant name =>
    refine hsame (nest_turn fun call => ?_)
    unfold grant
    split
    · next ticket aim =>
      split
      · cases aim <;> rfl
      · rfl
    · rfl
  | check name =>
    refine hsame (nest_turn fun call => ?_)
    unfold check
    split
    · dsimp only
      split
      · rfl
      · exact nest_takeBack _ rfl
    · rfl
  | await name =>
    refine hsame (nest_turn fun call => ?_)
    unfold await
    split
    · split
      · rfl
      · split
        · exact nest_takeBack _ rfl
        · rfl
    · rfl
  | giveUp name =>
    refine hsame (nest_turn fun call => ?_)
    unfold giveUp
    split
    · split <;> rfl
    · rfl
  | drop name =>
    refine hsame (nest_turn fun call => ?_)
    unfold drop
    split
    · next ticket aim => cases aim <;> rfl
    · rfl
  | pick =>
    refine hsame ?_
    simp only [beat, pick]
    split <;> rfl
  | enter id =>
    refine nest_goOn fun a => ?_
    cases a with
    | picked job => exact (Nest.Change.pushed .normal).onward
    | entered _ _ | executing _ _ | leaving _ _ | popping _ _ | gone _ | left => exact .refl _
  | lease id =>
    refine nest_goOn fun a => ?_
    cases a with
    | entered job frame =>
      simp only [lease]
      split
      · next h nest htake => exact (Nest.Change.served (Nest.alike_tryLease htake).2).onward
      · exact .refl _
    | picked _ | executing _ _ | leaving _ _ | popping _ _ | gone _ | left => exact .refl _
  | reply id =>
    refine nest_goOn fun a => ?_
    cases a with
    | executing job h =>
      simp only [reply]
      split
      · next ending c' hexecute =>
        obtain ⟨-, engine, rfl⟩ := execute_spec hexecute
        exact .refl _
      · exact .refl _
    | picked _ | entered _ _ | leaving _ _ | popping _ _ | gone _ | left => exact .refl _
  | popFrame id =>
    refine nest_goOn fun a => ?_
    cases a with
    | popping frame remnant => exact (Nest.change_popTop c.nest).onward
    | picked _ | entered _ _ | executing _ _ | leaving _ _ | gone _ | left => exact .refl _
  | giveBack id =>
    refine nest_goOn fun a => ?_
    unfold giveBack
    split
    · next h => exact (Nest.Change.served (Nest.alike_release _ h)).onward
    · exact .refl _
    · exact .refl _
  | leave id | free id =>
    refine nest_goOn fun a => ?_
    cases a <;> exact .refl _
  | reader on => exact onward_setReader c on
  | push kind => exact (Nest.Change.pushed kind).onward
  | pop =>
    simp only [beat]
    split
    · next i nest hpop => exact (Nest.Change.popped hpop).onward
    · exact .refl _
  | result name =>
    refine hsame ?_
    simp only [beat]
    split
    · rfl
    · split <;> rfl
  | dropResult name =>
    refine hsame ?_
    simp only [beat]
    split <;> rfl
  | set _ _ _ _ | clear _ | exec _ _ _ _ | cancel _ | unsubscribe => exact hsame rfl

theorem standing_of_run (h : Run past c) : c.nest.Standing := by
  induction h with
  | start engine => exact Nest.initial_standing
  | beat h b hfresh ih => exact (onward_of_beat _ b).standing ih

/-- The moment `m` of the past at which `frame` was pushed for the request `id`. -/
structure Pushed (past : History) (id frame : Nat) (m : Callers × Beat) : Prop where
  mem : m ∈ past
  beat_eq : m.2 = .enter id
  nest_eq : m.1.nest.push .normal = (frame, (m.1.beat m.2).2.nest)

/-- A request that ran with the lease `h` has left its frame. If that lay on `above` when it was
looked for, it was popped then; and if it still lay there, it is popped for good, and `above` is
all that was left. -/
def LeftFrame (past : History) (c : Callers) (id : Nat) (h : Handle) (above : List Nat) : Prop :=
  ∃ m ∈ past, m.2 = .leave id ∧
    m.1.running.lookup id = some (.leaving h.frame (.lease h)) ∧
    (m.1.nest.above = h.frame :: above →
      ∃ x ∈ past, x.2 = .popFrame id ∧
        x.1.running.lookup id = some (.popping h.frame (.lease h)) ∧
        (x.1.nest.above = h.frame :: above →
          (x.1.beat x.2).2.nest.above = above ∧ (c.nest.frame h.frame).isPopped = true))

/-- How far a request has come that runs with the lease `h` and has not left its frame. -/
inductive Inside (past : History) (id : Nat) (h : Handle) : Active → Prop
  | executing (job : Job) : Inside past id h (.executing job h)
  | leaving : Inside past id h (.leaving h.frame (.lease h))
  | popping (m : Callers × Beat) (hm : m ∈ past) (hbeat : m.2 = .leave id)
      (hlookup : m.1.running.lookup id = some (.leaving h.frame (.lease h))) :
      Inside past id h (.popping h.frame (.lease h))

theorem Pushed.mono {frame : Nat} {m x : Callers × Beat} (h : Pushed past id frame m) :
    Pushed (x :: past) id frame m :=
  ⟨List.mem_cons_of_mem x h.mem, h.beat_eq, h.nest_eq⟩

theorem LeftFrame.mono {h : Handle} {above : List Nat} (hleft : LeftFrame past c id h above)
    (hs : c.nest.Standing) : LeftFrame ((c, b) :: past) (c.beat b).2 id h above := by
  obtain ⟨m, hm, hbeat, hlookup, hpopped⟩ := hleft
  refine ⟨m, List.mem_cons_of_mem _ hm, hbeat, hlookup, fun habove => ?_⟩
  obtain ⟨x, hx, hbeat', hlookup', hclosed⟩ := hpopped habove
  refine ⟨x, List.mem_cons_of_mem _ hx, hbeat', hlookup', fun habove' => ?_⟩
  obtain ⟨hafter, hclosed⟩ := hclosed habove'
  exact ⟨hafter, (onward_of_beat c b).popped _ hs hclosed⟩

theorem Inside.mono {h : Handle} {a : Active} {m : Callers × Beat} (hin : Inside past id h a) :
    Inside (m :: past) id h a := by
  cases hin with
  | executing job => exact .executing job
  | leaving => exact .leaving
  | popping x hx hbeat hlookup => exact .popping x (List.mem_cons_of_mem m hx) hbeat hlookup

theorem nest_popFrame {h : Handle} {above : List Nat} (hs : c.nest.Standing)
    (hlookup : c.running.lookup id = some (.popping h.frame (.lease h)))
    (habove : c.nest.above = h.frame :: above) :
    (c.beat (.popFrame id)).2.nest.above = above ∧
      ((c.beat (.popFrame id)).2.nest.frame h.frame).isPopped = true := by
  have hnest : (c.beat (.popFrame id)).2.nest = c.nest.popTop := by
    simp only [beat, goOn, hlookup, Option.elim_some]
    rfl
  have htop : c.nest.top = h.frame := by rw [Nest.top, habove]; rfl
  rw [hnest]
  rcases c.nest.popTop_spec with hpop | ⟨-, hempty⟩
  · have hspec := (Nest.pop_spec hpop).1
    rw [habove] at hspec
    refine ⟨(List.cons.inj hspec).2.symm, ?_⟩
    rw [← htop, Frame.isPopped, hs.queue_of_pop hpop]
    rfl
  · rw [habove] at hempty
    cases hempty

/-- A request that runs in its frame comes further inside it, or leaves it. -/
theorem Inside.advance {h : Handle} {a a' : Active} {e : Event} {f : Cell → Cell}
    {above : List Nat} (hin : Inside past id h a) (hlookup : c.running.lookup id = some a)
    (hs : c.nest.Standing) (hadvance : Advance c id b a e a' f) :
    Inside ((c, b) :: past) id h a' ∨ LeftFrame ((c, b) :: past) (c.beat b).2 id h above := by
  cases hadvance with
  | ended job handle ending hends =>
    cases hin
    exact .inl .leaving
  | found frame remnant htop =>
    cases hin
    exact .inl (.popping _ List.mem_cons_self rfl hlookup)
  | buried frame remnant htop =>
    cases hin
    refine .inr ⟨_, List.mem_cons_self, rfl, hlookup, fun habove => ?_⟩
    exact absurd (by rw [Nest.top, habove]; rfl) htop
  | popped frame remnant =>
    cases hin with
    | popping m hm hbeat hlooked =>
      exact .inr ⟨m, List.mem_cons_of_mem _ hm, hbeat, hlooked, fun _ =>
        ⟨_, List.mem_cons_self, rfl, hlookup, nest_popFrame hs hlookup⟩⟩
  | entered job | started job handle | lost job frame | released handle | dropped job => cases hin

/-- What a beat does to the one request that is running. -/
inductive Progress (c : Callers) (b : Beat) (e : Event) (c' : Callers) : Prop
  | same (hrunning : c'.running = c.running) (he : e.isStart = false)
  | picked (id : Nat) (job : Job) (hold : c.running = []) (hnew : c'.running = [(id, .picked job)])
      (he : e.isStart = false)
  | advanced (id : Nat) (a a' : Active) (f : Cell → Cell) (hold : c.running = [(id, a)])
      (hnew : c'.running = [(id, a')]) (h : Advance c id b a e a' f)
  | freed (id : Nat) (hold : c.running = [(id, .left)]) (hnew : c'.running = [])
      (he : e.isStart = false)

theorem Held.progress {e : Event} (h : c.Held) (he : Effect c b e c') : Progress c b e c' := by
  cases he with
  | same hslot hline hrunning hcells => exact .same hrunning rfl
  | joined aim hslot hline hrunning hcells => exact .same hrunning (by cases aim <;> rfl)
  | granted ticket aim permit before after hlook hold hslot hline hrunning hcells =>
    exact .same hrunning (by cases aim <;> rfl)
  | reclaimed id job hold hslot hline hrunning hcells => exact .same hrunning rfl
  | withdrew ticket aim before after hold hslot hline hrunning hcells =>
    exact .same hrunning (by cases aim <;> rfl)
  | picked id job hold hslot hline hrunning hcells =>
    have hidle := h.running_nil hold
    exact .picked id job hidle (by simpa [hidle] using hrunning) rfl
  | advanced id a a' f hold hadvance hslot hline hrunning hcells =>
    have hactive := h.running_eq hold
    exact .advanced id a a' f hactive (by simpa [hactive] using hrunning) hadvance
  | freed id hold hslot hline hrunning hcells =>
    have hactive := h.running_eq hold
    exact .freed id hactive (by simpa [hactive] using hrunning) rfl

/-- The moments at which the frames of the running request were pushed. -/
def EachPushed (past : History) (c : Callers) : Prop :=
  ∀ p ∈ c.running, ∀ frame, p.2.frame? = some frame → ∃ m, Pushed past p.1 frame m

theorem pushed_of_run (h : Run past c) : EachPushed past c := by
  induction h with
  | start engine => exact List.forall_mem_nil _
  | beat h b hfresh ih =>
    rename_i past c
    have hmono : ∀ p ∈ c.running, ∀ frame, p.2.frame? = some frame →
        ∃ m, Pushed ((c, b) :: past) p.1 frame m := fun p hp frame hframe =>
      (ih p hp frame hframe).imp fun m hm => hm.mono
    unfold EachPushed
    cases (held_of_run h).progress (effect_of_run (h.beat b hfresh)).2.2 with
    | same hrunning he => exact hrunning ▸ hmono
    | picked id job hold hnew he =>
      rw [hnew]
      rintro p hp frame hframe
      obtain rfl := List.mem_singleton.mp hp
      cases hframe
    | advanced id a a' f hold hnew hadvance =>
      rw [hnew]
      rintro p hp frame hframe
      obtain rfl := List.mem_singleton.mp hp
      generalize c.event b = e at hadvance
      cases hadvance with
      | entered job =>
        cases hframe
        refine ⟨(c, .enter id), List.mem_cons_self, rfl, ?_⟩
        simp [beat, goOn, hold, enter, setActive]
      | started job handle =>
        exact hmono (id, .entered job handle.frame) (hold ▸ List.mem_singleton_self _) frame hframe
      | lost job frame | ended job handle ending hends | found frame remnant htop
      | buried frame remnant htop | popped frame remnant | released handle | dropped job =>
        cases hframe
    | freed id hold hnew he =>
      rw [hnew]
      exact List.forall_mem_nil _

/-- Whatever ran did so in a frame pushed for it on the innermost one. It has the permit, alone,
or has left that frame. -/
theorem framed_of_run (h : Run past c) {m : Callers × Beat} (hm : m ∈ past) {job : Job}
    {handle : Handle} (hstarted : m.1.event m.2 = .started id job handle) :
    ∃ x, Pushed past id handle.frame x ∧
      ((∃ a, c.running = [(id, a)] ∧ Inside past id handle a) ∨
        LeftFrame past c id handle x.1.nest.above) := by
  induction h with
  | start engine => cases hm
  | beat h b hfresh ih =>
    rename_i past c
    have hprogress := (held_of_run h).progress (effect_of_run (h.beat b hfresh)).2.2
    rcases List.mem_cons.mp hm with rfl | hm
    · rw [hstarted] at hprogress
      cases hprogress with
      | same hrunning he | picked i job hold hnew he | freed i hold hnew he => cases he
      | advanced i a a' f hold hnew hadvance =>
        cases hadvance with
        | started job handle =>
          obtain ⟨x, hx⟩ := pushed_of_run h (id, _) (hold ▸ List.mem_singleton_self _) _ rfl
          exact ⟨x, hx.mono, .inl ⟨_, hnew, .executing job⟩⟩
    · obtain ⟨x, hx, hactive | hleft⟩ := ih hm
      · -- nothing else runs, so that the beat takes this run further or leaves it alone
        obtain ⟨a, hactive, hin⟩ := hactive
        refine ⟨x, hx.mono, ?_⟩
        generalize c.event b = e at hprogress
        cases hprogress with
        | same hrunning he => exact .inl ⟨a, hrunning.trans hactive, hin.mono⟩
        | picked i job hold hnew he => cases hactive.symm.trans hold
        | freed i hold hnew he =>
          cases hactive.symm.trans hold
          cases hin
        | advanced i a₀ a' f hold hnew hadvance =>
          cases hactive.symm.trans hold
          have hlookup : c.running.lookup id = some a := by simp [hold]
          exact (hin.advance hlookup (standing_of_run h) hadvance).imp_left
            fun hin => ⟨a', hnew, hin⟩
      · exact ⟨x, hx.mono, .inr (hleft.mono (standing_of_run h))⟩

end Callers

end IdleSlot

end ScriptHost
