import ScriptHost.Proofs.RequestLedger

/-!
The order in which requests are parked in the idle slot. It is the order in which their callers
asked, whoever gives up in the line: what was parked so far, and then what is still in the line,
is what was asked for, without what was given up.
-/

namespace ScriptHost.IdleSlot

def Event.askedId? (e : Event) : Option Nat :=
  e.asked?.map fun job => job.request.id

def Event.parked? : Event → Option Nat
  | .parked id => some id
  | _ => none

def Event.gaveUp? : Event → Option Nat
  | .gaveUp id => some id
  | _ => none

namespace Callers

variable {c c' : Callers} {past : History} {b : Beat} {job : Job} {id : Nat} {e : Event}

/-- The requests to which something happened, in the order in which it happened. -/
def idsOf (f : Event → Option Nat) (past : History) : List Nat :=
  past.reverse.filterMap fun m => f (m.1.event m.2)

theorem idsOf_cons (f : Event → Option Nat) :
    idsOf f ((c, b) :: past) = idsOf f past ++ (f (c.event b)).toList := by
  rw [idsOf, List.reverse_cons, List.filterMap_append]
  cases hf : f (c.event b) <;> simp [idsOf, hf]

/-- The requests that were parked, and then those in the line, are the ones asked for, in the
same order, without those that were given up in the line. -/
structure InOrder (past : History) (c : Callers) : Prop where
  asked_eq : idsOf Event.askedId? past = List.range c.cells.length
  gaveUp_lt : ∀ id ∈ idsOf Event.gaveUp? past, id < c.cells.length
  order : idsOf Event.parked? past ++ c.lineJobs.map (·.request.id) =
    (idsOf Event.askedId? past).filter (· ∉ idsOf Event.gaveUp? past)

theorem InOrder.same (h : InOrder past c) (hevent : c.event b = e)
    (hline : c'.lineJobs = c.lineJobs) (hcells : c'.cells.length = c.cells.length)
    (hasked : e.askedId? = none) (hparked : e.parked? = none) (hgaveUp : e.gaveUp? = none) :
    InOrder ((c, b) :: past) c' := by
  subst hevent
  refine ⟨?_, ?_, ?_⟩
  · rw [idsOf_cons, hasked, hcells]
    exact (List.append_nil _).trans h.asked_eq
  · rw [idsOf_cons, hgaveUp, hcells]
    exact (List.append_nil (idsOf Event.gaveUp? past)).symm ▸ h.gaveUp_lt
  · rw [idsOf_cons, idsOf_cons, idsOf_cons, hasked, hparked, hgaveUp, hline]
    simp only [Option.toList_none, List.append_nil]
    exact h.order

/-- A new request comes last. -/
theorem InOrder.ask (h : InOrder past c) (hevent : c.event b = .asked job)
    (hline : c'.lineJobs = c.lineJobs ++ [job]) (hcells : c'.cells = c.cells ++ [.waiting]) :
    InOrder ((c, b) :: past) c' := by
  have hid := (asked_spec hevent).2
  have hgaveUp : idsOf Event.gaveUp? ((c, b) :: past) = idsOf Event.gaveUp? past := by
    rw [idsOf_cons, hevent]
    exact List.append_nil _
  have hasked : idsOf Event.askedId? ((c, b) :: past) =
      idsOf Event.askedId? past ++ [c.cells.length] := by
    rw [idsOf_cons, hevent, ← hid]
    rfl
  have hparked : idsOf Event.parked? ((c, b) :: past) = idsOf Event.parked? past := by
    rw [idsOf_cons, hevent]
    exact List.append_nil _
  have hlength : c'.cells.length = c.cells.length + 1 := by
    rw [hcells, List.length_append, List.length_singleton]
  have hnew : c.cells.length ∉ idsOf Event.gaveUp? past := fun hmem =>
    Nat.lt_irrefl _ (h.gaveUp_lt _ hmem)
  refine ⟨?_, ?_, ?_⟩
  · rw [hasked, h.asked_eq, hlength, List.range_succ]
  · rw [hgaveUp, hlength]
    exact fun id hmem => Nat.lt_succ_of_lt (h.gaveUp_lt id hmem)
  · rw [hparked, hasked, hgaveUp, hline, List.map_append, ← List.append_assoc, h.order,
      List.filter_append]
    simp [hnew, hid]

/-- The first one in the line is parked. -/
theorem InOrder.park (h : InOrder past c) (hevent : c.event b = .parked id) {rest : List Job}
    (hold : c.lineJobs = job :: rest) (hid : job.request.id = id) (hline : c'.lineJobs = rest)
    (hcells : c'.cells.length = c.cells.length) : InOrder ((c, b) :: past) c' := by
  have horder := h.order
  rw [hold, List.map_cons, hid] at horder
  refine ⟨?_, ?_, ?_⟩
  · rw [idsOf_cons, hevent, hcells]
    exact (List.append_nil _).trans h.asked_eq
  · rw [idsOf_cons, hevent, hcells]
    exact (List.append_nil (idsOf Event.gaveUp? past)).symm ▸ h.gaveUp_lt
  · simp only [idsOf_cons, hevent, hline, Event.askedId?, Event.asked?, Event.parked?,
      Event.gaveUp?, Option.map_none, Option.toList_none, Option.toList_some, List.append_nil]
    rw [List.append_assoc]
    exact horder

/-- One in the line is given up. -/
theorem InOrder.giveUp (h : InOrder past c) (hevent : c.event b = .gaveUp id)
    {before after : List Job} (hold : c.lineJobs = before ++ job :: after)
    (hid : job.request.id = id) (hline : c'.lineJobs = before ++ after)
    (hcells : c'.cells.length = c.cells.length) : InOrder ((c, b) :: past) c' := by
  have horder := h.order
  rw [hold, List.map_append, List.map_cons, hid, ← List.append_assoc] at horder
  have hmem : id ∈ (idsOf Event.askedId? past).filter (· ∉ idsOf Event.gaveUp? past) := by
    rw [← horder]
    simp
  have hlt : id < c.cells.length := by
    have hasked := List.mem_of_mem_filter hmem
    rw [h.asked_eq] at hasked
    exact List.mem_range.mp hasked
  have hnodup : ((idsOf Event.askedId? past).filter (· ∉ idsOf Event.gaveUp? past)).Nodup :=
    (h.asked_eq ▸ List.nodup_range).filter _
  have hgaveUp : idsOf Event.gaveUp? ((c, b) :: past) = idsOf Event.gaveUp? past ++ [id] := by
    rw [idsOf_cons, hevent]
    rfl
  refine ⟨?_, ?_, ?_⟩
  · rw [idsOf_cons, hevent, hcells]
    exact (List.append_nil _).trans h.asked_eq
  · rw [hgaveUp, hcells]
    intro i hi
    rcases List.mem_append.mp hi with hi | hi
    · exact h.gaveUp_lt i hi
    · exact List.mem_singleton.mp hi ▸ hlt
  · -- `id` is asked for once, so that giving it up takes one place out of the line
    have hfilter : (idsOf Event.askedId? past).filter (· ∉ idsOf Event.gaveUp? past ++ [id]) =
        ((idsOf Event.askedId? past).filter (· ∉ idsOf Event.gaveUp? past)).filter (· != id) := by
      rw [List.filter_filter]
      refine List.filter_congr fun i _ => ?_
      by_cases hi : i = id <;> simp [hi]
    rw [hgaveUp, idsOf_cons, idsOf_cons, hevent, hline]
    simp only [Event.askedId?, Event.asked?, Event.parked?, Option.map_none, Option.toList_none,
      List.append_nil]
    rw [hfilter, ← horder, filter_ne_middle (horder ▸ hnodup), List.map_append, List.append_assoc]

theorem InOrder.effect (h : InOrder past c) (hheld : c.Held) (he : Effect c b (c.event b) c') :
    InOrder ((c, b) :: past) c' := by
  generalize hevent : c.event b = e at he
  cases he with
  | same hslot hline hrunning hcells =>
    exact h.same hevent (by rw [lineJobs, hline]; rfl) (by rw [hcells]) rfl rfl rfl
  | joined aim hslot hline hrunning hcells =>
    have hjobs : c'.lineJobs = c.lineJobs ++ aim.job?.toList :=
      (lineJobs_of_line hline).trans (by simp [lineJobs])
    cases aim with
    | set job | exec job => exact h.ask hevent hjobs hcells
    | clear =>
      exact h.same hevent (hjobs.trans (List.append_nil _)) (by simp [hcells, Aim.job?]) rfl rfl rfl
  | granted ticket aim permit before after hlook hold hslot hline hrunning hcells =>
    obtain ⟨rfl, -⟩ := hheld.granted hlook hold
    have hjobs := lineJobs_of_line hold
    have hjobs' := lineJobs_of_rest hline
    cases aim with
    | set job | exec job => exact h.park hevent hjobs rfl hjobs' (by rw [hcells])
    | clear =>
      exact h.same hevent (hjobs'.trans hjobs.symm) (by rw [hcells]) rfl rfl rfl
  | withdrew ticket aim before after hold hslot hline hrunning hcells =>
    have hjobs := lineJobs_of_line hold
    have hjobs' := lineJobs_of_rest hline
    cases aim with
    | set job | exec job =>
      exact h.giveUp hevent hjobs rfl hjobs' (by rw [hcells]; exact List.length_modify _ _ _)
    | clear =>
      exact h.same hevent (hjobs'.trans hjobs.symm) (by rw [hcells]; rfl) rfl rfl rfl
  | reclaimed id job hold hslot hline hrunning hcells =>
    exact h.same hevent (by rw [lineJobs, hline]; rfl) (by rw [hcells, List.length_modify])
      rfl rfl rfl
  | picked id job hold hslot hline hrunning hcells =>
    exact h.same hevent (by rw [lineJobs, hline]; rfl) (by rw [hcells]) rfl rfl rfl
  | advanced id a a' f hold hadvance hslot hline hrunning hcells =>
    refine h.same hevent (by rw [lineJobs, hline]; rfl) (by rw [hcells, List.length_modify])
      ?_ ?_ ?_ <;> cases hadvance <;> rfl
  | freed id hold hslot hline hrunning hcells =>
    exact h.same hevent (by rw [lineJobs, hline]; rfl) (by rw [hcells]) rfl rfl rfl

theorem inOrder_of_run (h : Run past c) : InOrder past c := by
  induction h with
  | start engine => exact ⟨rfl, List.forall_mem_nil _, rfl⟩
  | beat h b hfresh ih => exact ih.effect (held_of_run h) (effect_of_run (h.beat b hfresh)).2.2

end Callers

end ScriptHost.IdleSlot
