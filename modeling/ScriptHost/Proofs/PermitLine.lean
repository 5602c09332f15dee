import Mathlib.Data.List.Nodup
import ScriptHost.IdleSlot

/-!
The line for a permit. Callers stand in it once and are served in the order in which they
came, whoever else leaves it. Where the line and the number of callers that have the permit
are known, every operation keeps the account: a permit is taken exactly if someone has it or
was just given it, and a free permit leaves nobody in the line.
-/

namespace ScriptHost

theorem filter_ne_middle {before after : List Nat} {k : Nat}
    (h : (before ++ k :: after).Nodup) :
    (before ++ k :: after).filter (· != k) = before ++ after := by
  have hnot := (List.nodup_cons.mp (List.nodup_middle.mp h)).1
  rw [List.mem_append, not_or] at hnot
  rw [← h.erase_eq_filter, List.erase_append_right _ hnot.1, List.erase_cons_head]

namespace Permit

variable {p p' : Permit} {inLine inLine' : Nat → Prop} {ticket : Nat}

/-- The callers that have not left the line. -/
def tickets (p : Permit) : List Nat :=
  p.granted.toList ++ p.waiting

/-- A line in which everyone is `inLine` and stands once. -/
structure Lined (p : Permit) (inLine : Nat → Prop) : Prop where
  nodup : p.tickets.Nodup
  made : ∀ ticket ∈ p.tickets, ticket < p.nextTicket
  queued : ∀ ticket ∈ p.tickets, inLine ticket

theorem Lined.mono (h : p.Lined inLine) (hle : ∀ ticket, inLine ticket → inLine' ticket) :
    p.Lined inLine' :=
  ⟨h.nodup, h.made, fun ticket hmem => hle ticket (h.queued ticket hmem)⟩

/-- Some of a line, in the same order. -/
theorem Lined.sublist (h : p.Lined inLine) (hsub : p'.tickets.Sublist p.tickets)
    (hnext : p'.nextTicket = p.nextTicket) : p'.Lined inLine :=
  ⟨h.nodup.sublist hsub, fun ticket hmem => hnext ▸ h.made ticket (hsub.subset hmem),
    fun ticket hmem => h.queued ticket (hsub.subset hmem)⟩

/-- One caller has left the line. -/
theorem Lined.without (h : p.Lined inLine) (hgone : ticket ∉ p.tickets) :
    p.Lined fun ticket' => ticket' ≠ ticket ∧ inLine ticket' :=
  ⟨h.nodup, h.made, fun ticket' hmem =>
    ⟨fun heq => hgone (heq ▸ hmem), h.queued ticket' hmem⟩⟩

theorem acquire_free (h : p.acquire = (none, p')) : p'.tickets = p.tickets ∧
    p'.nextTicket = p.nextTicket := by
  unfold acquire at h
  split at h
  · cases h
  · cases h
    exact ⟨rfl, rfl⟩

theorem Lined.join (h : p.Lined inLine) (hacquire : p.acquire = (some ticket, p')) :
    p'.Lined (fun ticket' => inLine ticket' ∨ ticket' = ticket) ∧ p'.granted = p.granted ∧
      p'.taken = p.taken := by
  unfold acquire at hacquire
  split at hacquire
  · cases hacquire
    refine ⟨⟨?_, ?_, ?_⟩, rfl, rfl⟩
    · have hnew : p.nextTicket ∉ p.tickets := fun hmem => Nat.lt_irrefl _ (h.made _ hmem)
      change (p.granted.toList ++ (p.waiting ++ [p.nextTicket])).Nodup
      rw [← List.append_assoc, List.nodup_append_comm, List.singleton_append, List.nodup_cons]
      exact ⟨hnew, h.nodup⟩
    all_goals
      intro ticket hmem
      change ticket ∈ p.granted.toList ++ (p.waiting ++ [p.nextTicket]) at hmem
      rw [← List.append_assoc, List.mem_append, List.mem_singleton] at hmem
    · rcases hmem with hmem | rfl
      · exact Nat.lt_succ_of_lt (h.made ticket hmem)
      · exact Nat.lt_succ_self _
    · exact hmem.imp_left (h.queued ticket)
  · cases hacquire

theorem release_spec (p : Permit) :
    p.release.nextTicket = p.nextTicket ∧ p.release.tickets.Sublist p.tickets ∧
      (p.release.taken = true → p.release.granted.isSome = true) := by
  unfold release
  split
  · exact ⟨rfl, List.Sublist.refl _, by simp⟩
  · next t rest hwaiting =>
    refine ⟨rfl, ?_, fun _ => rfl⟩
    simp only [tickets, hwaiting, Option.toList_some, List.singleton_append]
    exact List.sublist_append_right _ _

theorem Lined.release (h : p.Lined inLine) : p.release.Lined inLine :=
  h.sublist p.release_spec.2.1 p.release_spec.1

theorem Lined.look (h : p.Lined inLine) (hlook : p.look ticket = some p') :
    p'.Lined fun ticket' => ticket' ≠ ticket ∧ inLine ticket' := by
  unfold Permit.look at hlook
  split at hlook
  · next hgranted =>
    cases hlook
    have htickets : p.tickets = ticket :: p.waiting := by simp [tickets, hgranted]
    have hnodup := h.nodup
    rw [htickets, List.nodup_cons] at hnodup
    have hline : ({ p with granted := none } : Permit).Lined inLine :=
      h.sublist (by rw [htickets]; exact List.sublist_cons_self _ _) rfl
    exact hline.without hnodup.1
  · cases hlook

theorem Lined.withdraw (h : p.Lined inLine) (ticket : Nat) :
    (p.withdraw ticket).Lined (fun ticket' => ticket' ≠ ticket ∧ inLine ticket') ∧
      ((p.withdraw ticket).taken = true → (p.withdraw ticket).granted.isSome = true ∨
        p.taken = true ∧ p.granted = (p.withdraw ticket).granted) := by
  unfold Permit.withdraw
  split
  · next hgranted =>
    have hlook : p.look ticket = some { p with granted := none } := by simp [Permit.look, hgranted]
    exact ⟨(h.look hlook).release, fun htaken => Or.inl ((release_spec _).2.2 htaken)⟩
  · next hgranted =>
    have hsub : ({ p with waiting := p.waiting.filter (· != ticket) } : Permit).tickets.Sublist
        p.tickets := List.filter_sublist.append_left _
    refine ⟨(h.sublist hsub rfl).without ?_, fun htaken => Or.inr ⟨htaken, rfl⟩⟩
    simp [tickets, hgranted]

/-- `held` permits are with callers that have looked, and `line` are the tickets of those that
have not, in the order in which they are served. A free permit leaves nobody in the line. -/
structure Ordered (p : Permit) (held : Nat) (line : List Nat) : Prop where
  line_eq : p.tickets = line
  nodup : line.Nodup
  made : ∀ ticket ∈ line, ticket < p.nextTicket
  taken_eq : p.taken.toNat = held + p.granted.toList.length
  line_free : p.taken = false → line = []

section Ordered

variable {held : Nat} {line before after : List Nat}

theorem Ordered.held_le (h : p.Ordered held line) : held + p.granted.toList.length ≤ 1 :=
  h.taken_eq ▸ Bool.toNat_le p.taken

theorem Ordered.join (h : p.Ordered held line) : p.join.2.Ordered held (line ++ [p.join.1]) := by
  have hnew : p.nextTicket ∉ line := fun hmem => Nat.lt_irrefl _ (h.made _ hmem)
  have hnodup : (line ++ [p.nextTicket]).Nodup := by
    rw [List.nodup_append_comm, List.singleton_append, List.nodup_cons]
    exact ⟨hnew, h.nodup⟩
  have hmade : ∀ ticket ∈ line ++ [p.nextTicket], ticket < p.nextTicket + 1 := by
    intro ticket hmem
    rcases List.mem_append.mp hmem with hmem | hmem
    · exact Nat.lt_succ_of_lt (h.made ticket hmem)
    · exact (List.mem_singleton.mp hmem) ▸ Nat.lt_succ_self _
  have hline := h.line_eq
  have htaken := h.taken_eq
  unfold Permit.join acquire
  cases hp : p.taken with
  | true =>
    refine ⟨?_, hnodup, hmade, by simpa [hp] using htaken, by simp⟩
    simp [tickets, ← hline]
  | false =>
    have hempty := h.line_free hp
    rw [hp] at htaken
    obtain ⟨rfl, hgranted⟩ : held = 0 ∧ p.granted.toList.length = 0 := by simpa using htaken.symm
    have hwaiting : p.waiting = [] := by
      rw [hempty, tickets] at hline
      exact (List.append_eq_nil_iff.mp hline).2
    refine ⟨?_, hnodup, hmade, rfl, by simp⟩
    simp [tickets, hwaiting, hempty]

/-- Only the head of the line finds that it was given the permit, and has it from then on. -/
theorem Ordered.look (h : p.Ordered held (before ++ ticket :: after))
    (hlook : p.look ticket = some p') : before = [] ∧ p'.Ordered (held + 1) after := by
  unfold Permit.look at hlook
  split at hlook
  · next hgranted =>
    cases hlook
    have hline := h.line_eq
    have htaken := h.taken_eq
    rw [tickets, hgranted] at hline
    obtain rfl : before = [] := by
      cases before with
      | nil => rfl
      | cons t before =>
        obtain rfl : ticket = t := (List.cons.inj hline).1
        exact absurd (List.mem_append_right _ List.mem_cons_self) (List.nodup_cons.mp h.nodup).1
    refine ⟨rfl, (List.cons.inj hline).2, (List.nodup_cons.mp h.nodup).2, ?_, ?_, fun hfree => ?_⟩
    · exact fun t hmem => h.made t (List.mem_cons_of_mem _ hmem)
    · simpa [hgranted] using htaken
    · exact absurd (h.line_free hfree) (List.cons_ne_nil _ _)
  · cases hlook

/-- The permit is given back by the one who held it. -/
theorem Ordered.release (h : p.Ordered (held + 1) line) : p.release.Ordered held line := by
  obtain ⟨rfl, hgranted⟩ : held = 0 ∧ p.granted.toList = [] := by
    have := h.held_le
    rw [← List.length_eq_zero_iff]
    omega
  have hwaiting : p.waiting = line := by
    rw [← h.line_eq, tickets, hgranted]
    rfl
  unfold Permit.release
  cases hp : p.waiting with
  | nil =>
    obtain rfl : [] = line := hp.symm.trans hwaiting
    exact ⟨by simp [tickets, hgranted], h.nodup, h.made, by simp [hgranted], fun _ => rfl⟩
  | cons t rest =>
    have htaken : p.taken = true := by
      cases htaken : p.taken with
      | true => rfl
      | false => simp [h.line_free htaken, hp] at hwaiting
    refine ⟨by simp [tickets, ← hwaiting, hp], h.nodup, h.made, by simp [htaken], ?_⟩
    simp [htaken]

/-- A caller leaves the line. A permit it was given goes to the next one. -/
theorem Ordered.withdraw (h : p.Ordered held (before ++ ticket :: after)) :
    (p.withdraw ticket).Ordered held (before ++ after) := by
  unfold Permit.withdraw
  split
  · next hgranted =>
    have hlook : p.look ticket = some { p with granted := none } := if_pos hgranted
    obtain ⟨rfl, hordered⟩ := h.look hlook
    exact hordered.release
  · next hgranted =>
    have hnodup := h.nodup
    have hfilter := filter_ne_middle hnodup
    have hsub : (before ++ after).Sublist (before ++ ticket :: after) :=
      (List.sublist_cons_self ticket after).append_left before
    refine ⟨?_, hnodup.sublist hsub, fun t ht => h.made t (hsub.subset ht), h.taken_eq, ?_⟩
    · rw [← hfilter, ← h.line_eq, tickets, tickets, List.filter_append]
      congr 1
      exact (List.filter_eq_self.mpr fun t ht => by
        simpa using fun heq : t = ticket => hgranted (heq ▸ Option.mem_toList.mp ht)).symm
    · intro hfree
      have := h.line_free hfree
      simp at this

end Ordered

end Permit

theorem IdleSlot.reclaim_spec {ρ : Type} {s s' : IdleSlot ρ} {id : Nat} {r : ρ}
    (h : s.reclaim id = some (r, s')) : s.parked = some (id, r) ∧ s' = s.clear := by
  unfold reclaim at h
  split at h
  · next parked r' hparked =>
    split at h
    · next hid =>
      cases h
      exact ⟨by rw [hparked, hid], rfl⟩
    · cases h
  · cases h

end ScriptHost
