import ScriptHost.Proofs.SlotBeats

/-!
Single flight through the idle slot. The permit is taken exactly while one request is parked,
one is running, or one caller was given the permit and has not looked yet, and it is then with
that one alone. So nobody waits for a permit that is free, whatever became of the requests and
of their callers, and a caller that empties the slot finds it empty.
-/

namespace ScriptHost.IdleSlot

/-- One that has the permit: a parked request, a running request, or a caller in the line that
was given the permit and has not looked. -/
inductive Holder where
  | parked (id : Nat)
  | running (id : Nat)
  | granted (ticket : Nat)
  deriving DecidableEq

namespace Callers

variable {c c' : Callers} {past : History} {id : Nat} {a : Active} {e : Event}

def holders (c : Callers) : List Holder :=
  c.slot.parked.toList.map (.parked ·.1) ++ c.running.map (.running ·.1) ++
    (c.line.filter fun p => c.slot.permit.granted = some p.1).map (.granted ·.1)

/-- The account of the permit: it is with the requests that are parked or running, and
otherwise serves those in the line. -/
def Held (c : Callers) : Prop :=
  c.slot.permit.Ordered (c.slot.parked.toList.length + c.running.length) (c.line.map Prod.fst)

theorem Held.running_eq (h : c.Held) (hactive : c.running.lookup id = some a) :
    c.running = [(id, a)] := by
  have hle := h.held_le
  cases hrunning : c.running with
  | nil => simp [hrunning] at hactive
  | cons p rest =>
    obtain rfl : rest = [] := by
      rw [hrunning, List.length_cons] at hle
      exact List.length_eq_zero_iff.mp (by omega)
    obtain ⟨key, active⟩ := p
    rw [hrunning, List.lookup_cons] at hactive
    by_cases hkey : id = key
    · subst hkey
      simpa using hactive
    · have hne : (id == key) = false := by simpa using hkey
      simp [hne] at hactive

theorem Held.running_nil {p : Nat × Job} (h : c.Held) (hparked : c.slot.parked = some p) :
    c.running = [] := by
  have hle := h.held_le
  rw [hparked, Option.toList_some, List.length_singleton] at hle
  exact List.length_eq_zero_iff.mp (by omega)

/-- A caller that was given the permit finds the slot empty and is first in the line. -/
theorem Held.granted {ticket : Nat} {aim : Aim} {permit : Permit}
    {before after : List (Nat × Aim)} (h : c.Held)
    (hlook : c.slot.permit.look ticket = some permit)
    (hline : c.line = before ++ (ticket, aim) :: after) :
    before = [] ∧ c.slot.parked = none ∧ c.running = [] ∧
      permit.Ordered 1 (after.map Prod.fst) := by
  unfold Held at h
  rw [hline, List.map_append, List.map_cons] at h
  obtain ⟨hbefore, hordered⟩ := h.look hlook
  have hle := hordered.held_le
  have hparked : c.slot.parked.toList = [] := List.length_eq_zero_iff.mp (by omega)
  have hrunning : c.running = [] := List.length_eq_zero_iff.mp (by omega)
  rw [hparked, hrunning] at hordered
  exact ⟨List.map_eq_nil_iff.mp hbefore, by simpa using hparked, hrunning, hordered⟩

theorem Held.effect (h : c.Held) {b : Beat} (he : Effect c b e c') : c'.Held := by
  unfold Held
  cases he with
  | same hslot hline hrunning hcells =>
    rw [hslot, hline, hrunning]
    exact h
  | joined aim hslot hline hrunning hcells =>
    rw [hslot, hline, hrunning, List.map_append]
    exact h.join
  | granted ticket aim permit before after hlook hold hslot hline hrunning hcells =>
    obtain ⟨rfl, hparked, hidle, hordered⟩ := h.granted hlook hold
    rw [hslot, hline, hrunning, hidle]
    cases aim with
    | set job | exec job => exact hordered
    | clear => exact hordered.release
  | reclaimed id job hold hslot hline hrunning hcells =>
    have hidle := h.running_nil hold
    unfold Held at h
    rw [hold, hidle] at h
    rw [hslot, hline, hrunning, hidle]
    exact h.release
  | withdrew ticket aim before after hold hslot hline hrunning hcells =>
    unfold Held at h
    rw [hold, List.map_append, List.map_cons] at h
    rw [hslot, hline, hrunning, List.map_append]
    exact h.withdraw
  | picked id job hold hslot hline hrunning hcells =>
    have hidle := h.running_nil hold
    unfold Held at h
    rw [hold, hidle] at h
    rw [hslot, hline, hrunning, hidle]
    exact h
  | advanced id a a' f hold hadvance hslot hline hrunning hcells =>
    have hactive := h.running_eq hold
    unfold Held at h
    rw [hactive] at h
    rw [hslot, hline, hrunning, hactive]
    simpa using h
  | freed id hold hslot hline hrunning hcells =>
    have hactive := h.running_eq hold
    have hidle : c'.running = [] := by simpa [hactive] using hrunning
    unfold Held at h
    rw [hactive] at h
    rw [hslot, hline, hidle]
    exact h.release

theorem held_of_run (h : Run past c) : c.Held := by
  induction h with
  | start engine => exact ⟨rfl, .nil, List.forall_mem_nil _, rfl, fun _ => rfl⟩
  | beat h b hfresh ih => exact ih.effect (effect_of_run (h.beat b hfresh)).2.2

theorem Held.length_holders (h : c.Held) : c.holders.length = c.slot.inFlight.toNat := by
  have hgranted : (c.line.filter fun p => c.slot.permit.granted = some p.1).length =
      c.slot.permit.granted.toList.length := by
    have htickets : (c.line.filter fun p => c.slot.permit.granted = some p.1).map Prod.fst =
        c.slot.permit.tickets.filter fun ticket => c.slot.permit.granted = some ticket := by
      rw [h.line_eq, List.filter_map]
      rfl
    rw [← List.length_map Prod.fst, htickets, Permit.tickets]
    have hnodup := h.line_eq ▸ h.nodup
    rw [Permit.tickets] at hnodup
    cases hp : c.slot.permit.granted with
    | none => simp
    | some ticket =>
      rw [hp] at hnodup
      have hnot : ∀ t ∈ c.slot.permit.waiting, ticket ≠ t := fun t ht heq =>
        (List.nodup_cons.mp hnodup).1 (heq ▸ ht)
      simpa using hnot
  rw [IdleSlot.inFlight, h.taken_eq]
  simp only [holders, List.length_append, List.length_map, hgranted]

theorem Held.holders_of_running (h : c.Held) (hactive : c.running = [(id, a)]) :
    c.holders = [.running id] := by
  have hmem : Holder.running id ∈ c.holders := by simp [holders, hactive]
  have hle : c.holders.length ≤ 1 := h.length_holders ▸ Bool.toNat_le _
  obtain ⟨holder, hholders⟩ := List.length_eq_one_iff.mp
    (Nat.le_antisymm hle (List.length_pos_of_mem hmem))
  rw [hholders] at hmem ⊢
  rw [List.mem_singleton.mp hmem]

/-- On every run at most one request or caller has the permit: a parked request, a running one,
or a caller that was given it and has not looked. The permit is taken exactly while one has it,
so that it never leaks, and once nobody has it nobody waits for it. A caller that is to empty
the slot discards nothing. -/
theorem single_flight (h : Run past c) :
    c.holders.length ≤ 1 ∧ (c.slot.inFlight = true ↔ c.holders ≠ []) ∧
      (c.holders = [] → c.line = []) ∧
      ∀ name ticket, c.pending.lookup name = some (.queued ticket .clear) →
        (c.beat (.grant name)).2.slot.parked = c.slot.parked := by
  have hheld := held_of_run h
  have hlength := hheld.length_holders
  refine ⟨hlength ▸ Bool.toNat_le _, ?_, fun hnone => ?_, fun name ticket hcall => ?_⟩
  · rw [← List.length_pos_iff, hlength]
    cases c.slot.inFlight <;> simp
  · rw [hnone] at hlength
    have hfree : c.slot.permit.taken = false := by simpa [IdleSlot.inFlight] using hlength.symm
    exact List.map_eq_nil_iff.mp (hheld.line_free hfree)
  · have hbeat : (c.beat (.grant name)).2 = (c.grant name (.queued ticket .clear)).2 := by
      simp only [beat, turn, hcall, Option.elim_some]
    rw [hbeat, grant]
    split
    · next permit hlook =>
      obtain ⟨before, after, hline, -⟩ := line_forget (names_of_run h).1 hcall rfl
      exact (hheld.granted hlook hline).2.1.symm
    · rfl

/-- A request runs and panics while two callers wait: the permit goes to the first one, and from
it to the one that is to empty the slot. -/
theorem single_flight_cleared :
    ∃ (past : History) (c : Callers), Run past c ∧ c.holders.length ≤ 1 ∧
      c.holders = [.granted 2] ∧ c.slot.inFlight = true ∧
      (c.beat (.grant "c")).2.slot.parked = none := by
  have hrun := run_of_follow (.start {})
    ([.reader true, .exec "a" (.ofScript "a") (.canned (.panicked .twoItems)) {}, .grant "a",
      .check "a", .set "b" (.ofScript "b") .depth {}, .clear "c", .pick, .enter 0, .lease 0,
      .reply 0, .leave 0, .popFrame 0, .giveBack 0, .free 0, .drop "b"]) (by decide)
  obtain ⟨hle, htaken, -, hclear⟩ := single_flight hrun
  refine ⟨_, _, hrun, hle, by decide +kernel, htaken.mpr (by decide +kernel), ?_⟩
  exact (hclear "c" 2 rfl).trans rfl

end Callers

end ScriptHost.IdleSlot
