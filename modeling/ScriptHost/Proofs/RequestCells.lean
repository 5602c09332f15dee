import Mathlib.Algebra.GroupWithZero.Nat
import ScriptHost.Proofs.TrafficOfMoves

/-!
Requests on their way and the cells of their requesters. A request is on its way from
when its cell is made until it is delivered or given up: with its caller, in the queue of
a loop, in the idle slot, or with the thread that runs it. It is in one of these places
only, and as long as it is there its cell waits.
-/

namespace ScriptHost.Service

/-- Requests that are on their way, `places` counting in how many places each of them is:
none is in two, and the cell of each waits. -/
def Unanswered (cells : List Cell) (places : Nat → Nat) : Prop :=
  ∀ id, places id ≤ 1 ∧ (places id = 1 → cells[id]? = some .waiting)

namespace Unanswered

variable {cells : List Cell} {places places' : Nat → Nat}

theorem mono (h : Unanswered cells places) (hle : ∀ id, places' id ≤ places id) :
    Unanswered cells places' := by
  intro id
  obtain ⟨hone, hwaiting⟩ := h id
  have := hle id
  exact ⟨by omega, fun h => hwaiting (by omega)⟩

theorem fresh (h : Unanswered cells places)
    (hle : ∀ id, places' id ≤ places id + if id = cells.length then 1 else 0) :
    Unanswered (cells ++ [.waiting]) places' := by
  intro id
  obtain ⟨hone, hwaiting⟩ := h id
  have hle := hle id
  by_cases hid : id = cells.length
  · have hnone : places id = 0 := by
      by_contra hne
      have hlt := (List.getElem?_eq_some_iff.mp (hwaiting (by omega))).1
      omega
    rw [if_pos hid] at hle
    exact ⟨by omega, fun _ => by simp [hid]⟩
  · rw [if_neg hid, add_zero] at hle
    refine ⟨by omega, fun hone' => ?_⟩
    have hcell := hwaiting (by omega)
    rw [List.getElem?_append_left (List.getElem?_eq_some_iff.mp hcell).1]
    exact hcell

theorem resolve (h : Unanswered cells places) (id : Nat) (f : Cell → Cell)
    (hle : ∀ i, places' i + (if i = id then 1 else 0) ≤ places i) :
    Unanswered (cells.modify id f) places' := by
  intro i
  obtain ⟨hone, hwaiting⟩ := h i
  have hle := hle i
  by_cases hi : i = id
  · rw [if_pos hi] at hle
    exact ⟨by omega, fun _ => by omega⟩
  · rw [if_neg hi, add_zero] at hle
    refine ⟨by omega, fun hone' => ?_⟩
    simp only [List.getElem?_modify, Ne.symm hi, if_false, id_map']
    exact hwaiting (by omega)

end Unanswered

/-- Whether an activation has a request on its way. -/
def Activation.carries (id : Nat) : Activation → Nat
  | .exec _ phase => if phase.owns ∧ phase.request? = some id then 1 else 0
  | .entering _ (.request r) => if id = r.id then 1 else 0
  | .request id' => if id = id' then 1 else 0
  | _ => 0

def carried (id : Nat) (stack : List Activation) : Nat :=
  (stack.map (Activation.carries id)).sum

section Carried

variable {id : Nat}

@[simp] theorem carried_nil : carried id [] = 0 := rfl

@[simp] theorem carried_cons (a : Activation) (rest : List Activation) :
    carried id (a :: rest) = a.carries id + carried id rest := rfl

@[simp] theorem carried_append (s s' : List Activation) :
    carried id (s ++ s') = carried id s + carried id s' := by
  simp [carried]

theorem carries_of_plain {a : Activation} (h : a.plain) : a.carries id = 0 := by
  cases a <;> simp_all [Activation.plain, Activation.carries]

theorem carried_of_plain {top : List Activation} (h : top.all Activation.plain) :
    carried id top = 0 := by
  induction top with
  | nil => rfl
  | cons a rest ih =>
    simp only [List.all_cons, Bool.and_eq_true] at h
    rw [carried_cons, carries_of_plain h.1, ih h.2]

theorem Begins.carried_eq {o : Order} {above : List Activation} {c : Control}
    (h : Begins o above c) : carried id above = 0 := by
  cases h with
  | refused e => rfl
  | entering => rfl
  | handed above loop control habove =>
    rw [carried_append, carried_of_plain habove]
    rfl

theorem Still.carried_le {s s' : List Activation} (h : Still s s') (id : Nat) :
    carried id s' ≤ carried id s := by
  cases h with
  | plain a top rest ha htop =>
    simp only [carried_cons, carried_append, carries_of_plain ha, carried_of_plain htop, le_refl]
  | ended a rest =>
    rw [carried_cons]
    exact Nat.le_add_left _ _
  | exec o phase phase' above rest habove hphase howns hrequest =>
    simp only [carried_append, carried_cons, carried_of_plain habove, Activation.carries, howns,
      hrequest, zero_add, le_refl]
  | loop id phase phase' rest => exact le_refl _
  | entering phase phase' work rest => cases work <;> exact le_refl _

end Carried

namespace Exchange

variable {x : Exchange} {l : MessageLoop}

/-- Loops have names of their own, and what is parked is parked under its name. -/
structure Sound (x : Exchange) : Prop where
  loops_nodup : (x.loops.map MessageLoop.id).Nodup
  loops_made : ∀ l ∈ x.loops, l.id < x.nextLoop
  parked_named : ∀ id r, x.parked = some (id, r) → r.id = id

/-- In how many queues of loops and idle slots a request is. -/
def carriers (x : Exchange) (id : Nat) : Nat :=
  (x.loops.map fun l => l.requests.countP (·.id = id)).sum +
    (x.parked.toList.map fun p => if id = p.2.id then 1 else 0).sum

theorem mem_of_findLoop {id : Nat} (h : x.findLoop id = some l) : l ∈ x.loops :=
  List.mem_of_find?_eq_some h

/-- A loop among the others. Updating it leaves the others alone, and so does closing it. -/
theorem Sound.split (h : x.Sound) (hl : l ∈ x.loops) :
    ∃ inner outer, x.loops = inner ++ l :: outer ∧
      (∀ f, (x.updateLoop l.id f).loops = inner ++ f l :: outer) ∧
      x.loops.filter (·.id != l.id) = inner ++ outer := by
  obtain ⟨inner, outer, hloops⟩ := List.append_of_mem hl
  have hnodup := h.loops_nodup
  rw [hloops, List.map_append, List.map_cons] at hnodup
  have hnot : l.id ∉ inner.map MessageLoop.id ++ outer.map MessageLoop.id :=
    (List.nodup_cons.mp (List.nodup_middle.mp hnodup)).1
  have hne : ∀ l' ∈ inner ++ outer, l'.id ≠ l.id := by
    intro l' hl' heq
    rw [← List.map_append] at hnot
    exact hnot (heq ▸ List.mem_map_of_mem hl')
  have hmap : ∀ (f : MessageLoop → MessageLoop) (ls : List MessageLoop),
      (∀ l' ∈ ls, l'.id ≠ l.id) → ls.map (fun l' => if l'.id == l.id then f l' else l') = ls := by
    intro f ls hls
    rw [List.map_congr_left (g := id) fun l' hl' => by simp [hls l' hl'], List.map_id]
  have hkeep : ∀ ls : List MessageLoop, (∀ l' ∈ ls, l'.id ≠ l.id) →
      ls.filter (·.id != l.id) = ls := by
    intro ls hls
    exact List.filter_eq_self.mpr fun l' hl' => by simpa using hls l' hl'
  have hinner : ∀ l' ∈ inner, l'.id ≠ l.id := fun l' hl' =>
    hne l' (List.mem_append_left _ hl')
  have houter : ∀ l' ∈ outer, l'.id ≠ l.id := fun l' hl' =>
    hne l' (List.mem_append_right _ hl')
  refine ⟨inner, outer, hloops, ?_, ?_⟩
  · intro f
    simp only [updateLoop, hloops, List.map_append, List.map_cons, beq_self_eq_true, if_true]
    rw [hmap f inner hinner, hmap f outer houter]
  · rw [hloops, List.filter_append, List.filter_cons_of_neg (by simp), hkeep inner hinner,
      hkeep outer houter]

/-- What an update of a loop does to the requests on their way, and what closing it does. -/
theorem Sound.carriers_update (h : x.Sound) (hl : l ∈ x.loops) (id : Nat) :
    ∃ others, x.carriers id = l.requests.countP (·.id = id) + others ∧
      (∀ f, (x.updateLoop l.id f).carriers id = (f l).requests.countP (·.id = id) + others) ∧
      { x with loops := x.loops.filter (·.id != l.id) }.carriers id = others := by
  obtain ⟨inner, outer, hloops, hupdate, hfilter⟩ := h.split hl
  refine ⟨{ x with loops := inner ++ outer }.carriers id, ?_, ?_, ?_⟩
  · simp only [carriers, hloops, List.map_append, List.map_cons, List.sum_append, List.sum_cons]
    omega
  · intro f
    have hparked : (x.updateLoop l.id f).parked = x.parked := rfl
    simp only [carriers, hupdate, hparked, List.map_append, List.map_cons, List.sum_append,
      List.sum_cons]
    omega
  · rw [hfilter]

theorem Sound.updateLoop (h : x.Sound) (hl : l ∈ x.loops) (f : MessageLoop → MessageLoop)
    (hf : (f l).id = l.id) : (x.updateLoop l.id f).Sound := by
  obtain ⟨inner, outer, hloops, hupdate, -⟩ := h.split hl
  have hids : (x.updateLoop l.id f).loops.map MessageLoop.id = x.loops.map MessageLoop.id := by
    rw [hupdate, hloops]
    simp [hf]
  refine ⟨hids ▸ h.loops_nodup, ?_, h.parked_named⟩
  intro l' hl'
  have hmem : l'.id ∈ x.loops.map MessageLoop.id := hids ▸ List.mem_map_of_mem hl'
  obtain ⟨l'', hl'', heq⟩ := List.mem_map.mp hmem
  rw [← heq]
  exact h.loops_made l'' hl''

end Exchange

section Traffic

variable {x x' : Exchange} {c c' : Control} {s s' : List Activation}

theorem Traffic.sound (h : Traffic x c s x' c' s') (hx : x.Sound) : x'.Sound := by
  cases h with
  | posted o l rest hl =>
    exact Exchange.Sound.updateLoop (x := x.newCell) ⟨hx.1, hx.2, hx.3⟩ hl _ rfl
  | parked o id rest =>
    refine ⟨hx.loops_nodup, hx.loops_made, ?_⟩
    intro id' r hr
    cases hr
    rfl
  | reclaimed o id r above rest hparked =>
    exact ⟨hx.loops_nodup, hx.loops_made, by simp⟩
  | withdrawn o id r rest hparked => exact ⟨hx.loops_nodup, hx.loops_made, by simp⟩
  | pickedUp id r a top rest hparked => exact ⟨hx.loops_nodup, hx.loops_made, by simp⟩
  | opened l phase a top rest hid =>
    refine ⟨?_, ?_, hx.parked_named⟩
    · refine List.nodup_cons.mpr ⟨?_, hx.loops_nodup⟩
      intro hmem
      obtain ⟨l', hl', heq⟩ := List.mem_map.mp hmem
      have := hx.loops_made l' hl'
      omega
    · intro l' hl'
      dsimp only at hl' ⊢
      rcases List.mem_cons.mp hl' with rfl | hl'
      · omega
      · have := hx.loops_made l' hl'
        omega
  | signalled l signal hl hsignal h => exact hx.updateLoop (Exchange.mem_of_findLoop hl) _ rfl
  | consumed l signal rest hl => exact hx.updateLoop (Exchange.mem_of_findLoop hl) _ rfl
  | skipped l r requests phase phase' rest hl =>
    have hupdate := hx.updateLoop (Exchange.mem_of_findLoop hl) (fun l => { l with requests }) rfl
    exact ⟨hupdate.1, hupdate.2, hupdate.3⟩
  | taken l r requests phase phase' above rest hl =>
    exact hx.updateLoop (Exchange.mem_of_findLoop hl) _ rfl
  | locked l signal rest hl => exact hx.updateLoop (Exchange.mem_of_findLoop hl) _ rfl
  | closed l signal phase above rest hl =>
    exact ⟨hx.loops_nodup.sublist (List.filter_sublist.map _),
      fun l' hl' => hx.loops_made l' (List.mem_of_mem_filter hl'), hx.parked_named⟩
  | _ => exact ⟨hx.1, hx.2, hx.3⟩

/-- What is on its way stays unanswered, whatever else is on its way. -/
theorem Traffic.unanswered (h : Traffic x c s x' c' s') (hx : x.Sound) (others : Nat → Nat)
    (hu : Unanswered x.cells fun id => x.carriers id + carried id s + others id) :
    Unanswered x'.cells fun id => x'.carriers id + carried id s' + others id := by
  have hstill : ∀ s', (∀ id, carried id s' ≤ carried id s) →
      Unanswered x.cells fun id => x.carriers id + carried id s' + others id := by
    intro s' hle
    refine hu.mono fun id => ?_
    have := hle id
    omega
  cases h with
  | quiet h => exact hstill _ fun id => h.carried_le id
  | spawnedReader handle read h => exact hstill _ fun id => h.carried_le id
  | spawned o h rest =>
    exact hstill _ fun id => by simp [Activation.carries, ExecPhase.owns]
  | answered o phase r rest h => exact hstill _ fun id => by simp
  | failed o phase rest h => exact hstill _ fun id => by simp
  | joined o worker r above rest habove h =>
    exact hstill _ fun id => by simp [Activation.carries, ExecPhase.owns, carried_of_plain habove]
  | reentered o a top rest ha htop =>
    exact hstill _ fun id => by
      simp [Activation.carries, ExecPhase.request?, carried_of_plain htop]
  | inlined o above rest h =>
    exact hstill _ fun id => by simp [Activation.carries, ExecPhase.owns, h.carried_eq]
  | posted o l rest hl =>
    refine hu.fresh fun id => ?_
    obtain ⟨queued, hbefore, hafter, -⟩ := hx.carriers_update hl id
    change (x.updateLoop l.id _).carriers id + _ + _ ≤ _
    rw [hafter, hbefore]
    simp only [carried_cons, Activation.carries, ExecPhase.owns, List.countP_append,
      List.countP_singleton, Order.toRequest, decide_eq_true_eq, eq_comm (a := id)]
    simp
    omega
  | acquired o phase rest howns hrequest =>
    refine hu.fresh fun id => ?_
    have hnone : ExecPhase.acquiring.request? = none := rfl
    change x.carriers id + _ + _ ≤ _
    simp [Activation.carries, howns, hrequest, hnone, eq_comm (a := id)]
    omega
  | turnedAway o rest =>
    have hmade : Unanswered (x.cells ++ [.waiting]) fun id =>
        x.carriers id + carried id s' + others id + if id = x.cells.length then 1 else 0 := by
      refine hu.fresh fun id => ?_
      rw [carried_cons]
      omega
    exact hmade.resolve _ _ fun id => le_refl _
  | gaveUp o ticket id rest =>
    refine hu.resolve _ _ fun i => ?_
    change x.carriers i + _ + _ + _ ≤ _
    simp [Activation.carries, ExecPhase.owns, ExecPhase.request?, eq_comm (a := id)]
    omega
  | parked o id rest =>
    refine hu.mono fun i => ?_
    simp [Activation.carries, Exchange.carriers, ExecPhase.owns, ExecPhase.request?,
      Order.toRequest, eq_comm (a := id)]
    omega
  | reclaimed o id r above rest hparked habove =>
    obtain rfl := hx.parked_named id r hparked
    refine hu.resolve _ _ fun i => ?_
    simp [Activation.carries, Exchange.carriers, hparked, carried_of_plain habove,
      ExecPhase.request?, ExecPhase.owns, Exchange.setCell]
    omega
  | withdrawn o id r rest hparked =>
    obtain rfl := hx.parked_named id r hparked
    refine hu.resolve _ _ fun i => ?_
    simp [Exchange.carriers, hparked, Exchange.setCell]
    omega
  | pickedUp id r a top rest hparked ha htop =>
    refine hu.mono fun i => ?_
    simp [Activation.carries, Exchange.carriers, hparked, carried_of_plain htop]
    omega
  | failedRequest r rest =>
    refine hu.resolve _ _ fun i => ?_
    simp [Activation.carries, Exchange.carriers, Exchange.setCell]
    omega
  | failedOrder o e rest => exact hstill _ fun id => by simp
  | lost phase work p rest => exact hstill _ fun id => by simp
  | unstarted h o p rest => exact hstill _ fun id => by simp
  | enteredRequest frame h r above rest habove =>
    exact hstill _ fun id => by simp [Activation.carries, carried_of_plain habove]
  | enteredOrder frame h o above rest habove =>
    exact hstill _ fun id => by simp [Activation.carries, carried_of_plain habove]
  | started h o above rest habove =>
    exact hstill _ fun id => by simp [Activation.carries, carried_of_plain habove]
  | returned r id rest =>
    refine hu.resolve _ _ fun i => ?_
    simp [Activation.carries, Exchange.carriers, Exchange.setCell]
    omega
  | caught p id rest =>
    refine hu.resolve _ _ fun i => ?_
    simp [Activation.carries, Exchange.carriers, Exchange.setCell]
    omega
  | opened l phase a top rest hid hrequests hsignal hpumps hparting ha htop =>
    refine hu.mono fun i => ?_
    simp [Activation.carries, Exchange.carriers, hrequests, carried_of_plain htop]
  | signalled l signal hl hsignal h =>
    refine hu.mono fun i => ?_
    obtain ⟨queued, hbefore, hafter, -⟩ :=
      hx.carriers_update (Exchange.mem_of_findLoop hl) i
    have := h.carried_le i
    simp only [hafter, hbefore]
    omega
  | consumed l signal rest hl hsignal =>
    refine hu.mono fun i => ?_
    obtain ⟨queued, hbefore, hafter, -⟩ :=
      hx.carriers_update (Exchange.mem_of_findLoop hl) i
    simp [hafter, hbefore, Activation.carries]
  | skipped l r requests phase phase' rest hl hr =>
    refine hu.resolve _ _ fun i => ?_
    obtain ⟨queued, hbefore, hafter, -⟩ :=
      hx.carriers_update (Exchange.mem_of_findLoop hl) i
    change (x.updateLoop l.id _).carriers i + _ + _ + _ ≤ _
    rw [hafter, hbefore, hr]
    simp [List.countP_cons, Activation.carries, eq_comm (a := i)]
    omega
  | taken l r requests phase phase' above rest hl hr hcancelled hpumps hparting h =>
    refine hu.mono fun i => ?_
    obtain ⟨queued, hbefore, hafter, -⟩ :=
      hx.carriers_update (Exchange.mem_of_findLoop hl) i
    simp [hafter, hbefore, hr, List.countP_cons, Activation.carries, h.carried_eq,
      eq_comm (a := i)]
    omega
  | locked l signal rest hl hr =>
    refine hu.mono fun i => ?_
    obtain ⟨queued, hbefore, hafter, -⟩ :=
      hx.carriers_update (Exchange.mem_of_findLoop hl) i
    simp [hafter, hbefore, Activation.carries]
  | closed l signal phase above rest hl hphase habove =>
    refine hu.mono fun i => ?_
    obtain ⟨queued, hbefore, -, hafter⟩ :=
      hx.carriers_update (Exchange.mem_of_findLoop hl) i
    have hcarried : carried i above = 0 := by
      rcases habove with rfl | ⟨action, rfl⟩ <;> rfl
    simp [hafter, hbefore, hcarried]
    omega

end Traffic

namespace Exchange

variable {x x' : Exchange} {mover : Option Nat}

/-- In how many places a request is. -/
def places (x : Exchange) (id : Nat) : Nat :=
  x.carriers id + total (fun _ t => carried id t.stack) x.threads

/-- What holds of every exchange that the service comes to. -/
structure Orderly (x : Exchange) : Prop where
  sound : x.Sound
  unanswered : Unanswered x.cells x.places

theorem Next.sound (h : x.Next mover x') (hx : x.Sound) : x'.Sound := by
  cases h with
  | move ht hfree h =>
    have hsound := h.sound hx
    exact ⟨hsound.1, hsound.2, hsound.3⟩
  | signalled l signal hl => exact hx.updateLoop (mem_of_findLoop hl) _ rfl
  | _ => exact ⟨hx.1, hx.2, hx.3⟩

/-- The places of a request that are with one thread, and those that are elsewhere, which stay
when the thread moves. -/
theorem exists_elsewhere {k : Nat} {t : Thread} (ht : x.threads[k]? = some t) :
    ∃ others : Nat → Nat, (∀ id, x.places id = x.carriers id + carried id t.stack + others id) ∧
      ∀ (x' : Exchange) (t' : Thread) (new : List Thread), x'.threads = x.threads ++ new →
        ∀ id, (x'.setThread k t').places id = x'.carriers id + carried id t'.stack +
          (total (fun _ t => carried id t.stack) new + others id) := by
  have hothers := fun id => exists_others_append (f := fun _ t => carried id t.stack) ht
  choose others hbefore hafter using hothers
  refine ⟨others, fun id => ?_, fun x' t' new hnew id => ?_⟩
  · rw [places, hbefore id, add_assoc]
  · have hset := hafter id t' new
    rw [← hnew] at hset
    rw [add_assoc, ← hset]
    rfl

theorem Next.unanswered (h : x.Next mover x') (hx : x.Orderly) : Unanswered x'.cells x'.places := by
  have hu := hx.unanswered
  cases h with
  | @move k t t' x' ht hfree h =>
    obtain ⟨new, hnew, hkinds⟩ := h.threads_eq
    have hnone : ∀ id, total (fun _ t => carried id t.stack) new = 0 := by
      intro id
      rcases hkinds with rfl | ⟨handle, read, rfl⟩ | ⟨handle, o, rfl⟩ <;> rfl
    obtain ⟨others, hbefore, hafter⟩ := exists_elsewhere ht
    have hmove := h.unanswered hx.sound others (by simpa only [← hbefore] using hu)
    refine hmove.mono fun id => ?_
    rw [hafter x' t' new hnew, hnone, zero_add]
  | @called a h =>
    refine hu.mono fun id => ?_
    have hnone : carried id [a] = 0 := by
      cases h <;> simp [Activation.carries, ExecPhase.request?]
    simp only [places, spawn, total_append, total_singleton, hnone]
    exact le_refl _
  | told tokens => exact hu
  | signalled l signal hl hsignal =>
    refine hu.mono fun id => ?_
    obtain ⟨queued, hcarriers, hupdate, -⟩ := hx.sound.carriers_update (mem_of_findLoop hl) id
    simp only [places, hupdate, hcarriers]
    exact le_refl _
  | dropped ht hs hcontrol t' hs' hcontrol' =>
    obtain ⟨others, hbefore, hafter⟩ := exists_elsewhere ht
    refine hu.mono fun id => ?_
    rw [hafter x t' [] (by simp), hbefore, hs', total_nil, carried_nil]
    omega
  | @leftLine k t o ticket id ht hs t' hs' hcontrol' =>
    obtain ⟨others, hbefore, hafter⟩ := exists_elsewhere ht
    refine hu.resolve _ _ fun i => ?_
    have hcarriers : (x.setCell id .abandon).carriers i = x.carriers i := rfl
    have hcarried : carried i t.stack = if i = id then 1 else 0 := by
      simp [hs, Activation.carries, ExecPhase.owns, ExecPhase.request?, eq_comm (a := id)]
    rw [hafter (x.setCell id .abandon) t' [] (by simp [setCell]), hbefore, hs', total_nil,
      carried_nil, hcarriers, hcarried]
    omega
  | returned ht hs t' hs' hcontrol' =>
    obtain ⟨others, hbefore, hafter⟩ := exists_elsewhere ht
    refine hu.mono fun id => ?_
    rw [hafter x t' [] (by simp), hbefore, hs', hs, total_nil, carried_nil]
    omega

theorem Next.orderly (h : x.Next mover x') (hx : x.Orderly) : x'.Orderly :=
  ⟨h.sound hx.sound, h.unanswered hx⟩

end Exchange

/-- The request whose execution ends with the next move of a thread, and how it ends. -/
def ending? : Control → List Activation → Option (Nat × Ending)
  | .back (.reply r), .request id :: _ => some (id, .returned r)
  | .unwind p, .request id :: _ => some (id, .panicked p)
  | _, _ => none

theorem ending_cons_of_ne {c : Control} {a : Activation} {rest : List Activation}
    (h : ∀ id, a ≠ .request id) : ending? c (a :: rest) = none := by
  unfold ending?
  split
  · next heq => exact absurd (List.cons.inj heq).1 (h _)
  · next heq => exact absurd (List.cons.inj heq).1 (h _)
  · rfl

theorem Still.ending_none {c : Control} {s s' : List Activation} (h : Still s s') :
    ending? c s = none := by
  cases h with
  | plain a top rest ha htop =>
    refine ending_cons_of_ne fun id heq => ?_
    rw [heq] at ha
    cases ha
  | ended a rest hrequest => exact ending_cons_of_ne hrequest
  | exec | loop | entering => exact ending_cons_of_ne (by simp)

/-- How the cells can change when no execution of a request ends. -/
inductive Unended (cells : List Cell) : List Cell → Prop
  | same : Unended cells cells
  | made : Unended cells (cells ++ [.waiting])
  | abandoned (id : Nat) : Unended cells (cells.modify id .abandon)
  | turnedAway : Unended cells ((cells ++ [Cell.waiting]).modify cells.length .abandon)

/-- Without an ending no cell gets a reply. -/
theorem Unended.replied {cells cells' : List Cell} (h : Unended cells cells') {id : Nat}
    {r : Reply} (hr : cells'[id]? = some (.replied r)) : cells[id]? = some (.replied r) := by
  have hmodify : ∀ (cells : List Cell) (i : Nat),
      (cells.modify i .abandon)[id]? = some (.replied r) → cells[id]? = some (.replied r) := by
    intro cells i hcell
    rw [List.getElem?_modify] at hcell
    obtain ⟨c, hc, heq⟩ := Option.map_eq_some_iff.mp hcell
    rw [hc]
    by_cases hi : i = id
    · rw [if_pos hi] at heq
      cases c <;> simp_all [Cell.abandon]
    · rw [if_neg hi] at heq
      rw [heq]
  have happend : (cells ++ [Cell.waiting])[id]? = some (.replied r) →
      cells[id]? = some (.replied r) := by
    intro hcell
    by_cases hid : id < cells.length
    · rwa [List.getElem?_append_left hid] at hcell
    · rw [List.getElem?_append_right (by omega)] at hcell
      have := List.mem_of_getElem? hcell
      simp at this
  cases h with
  | same => exact hr
  | made => exact happend hr
  | abandoned i => exact hmodify _ _ hr
  | turnedAway => exact happend (hmodify _ _ hr)

theorem Traffic.cells_change {x x' : Exchange} {c c' : Control} {s s' : List Activation}
    (h : Traffic x c s x' c' s') :
    (ending? c s = none ∧ Unended x.cells x'.cells) ∨
      ∃ id e rest, ending? c s = some (id, e) ∧ s = .request id :: rest ∧
        x'.cells = x.cells.modify id (.deliver e) := by
  cases h with
  | quiet h | spawnedReader handle read h | signalled l signal hl hsignal h =>
    exact Or.inl ⟨h.ending_none, .same⟩
  | returned r id => exact Or.inr ⟨id, _, s', rfl, rfl, rfl⟩
  | caught p id => exact Or.inr ⟨id, _, s', rfl, rfl, rfl⟩
  | posted | acquired => exact Or.inl ⟨ending_cons_of_ne (by simp), .made⟩
  | turnedAway => exact Or.inl ⟨ending_cons_of_ne (by simp), .turnedAway⟩
  | gaveUp | reclaimed | withdrawn | failedRequest | skipped =>
    exact Or.inl ⟨ending_cons_of_ne (by simp), .abandoned _⟩
  | reentered o a top rest ha | pickedUp id r a top rest hparked ha
  | opened l phase a top rest hid hrequests hsignal hpumps hparting ha =>
    refine Or.inl ⟨ending_cons_of_ne fun id heq => ?_, .same⟩
    rw [heq] at ha
    cases ha
  | _ => exact Or.inl ⟨ending_cons_of_ne (by simp), .same⟩

/-- The request whose execution ends in a step. -/
def Exchange.ending (x : Exchange) (mover : Option Nat) : Option (Nat × Ending) :=
  (mover.bind (x.threads[·]?)).bind fun t => ending? t.control t.stack

theorem Exchange.Next.cells_change {x x' : Exchange} {mover : Option Nat} (h : x.Next mover x') :
    (x.ending mover = none ∧ Unended x.cells x'.cells) ∨
      ∃ id e, x.ending mover = some (id, e) ∧ 1 ≤ x.places id ∧
        x'.cells = x.cells.modify id (.deliver e) := by
  cases h with
  | @move k t t' x' ht hfree h =>
    have hending : x.ending (some k) = ending? t.control t.stack := by
      simp [Exchange.ending, ht]
    rw [hending]
    rcases h.cells_change with hsame | ⟨id, e, rest, he, hstack, hcells⟩
    · exact Or.inl hsame
    · refine Or.inr ⟨id, e, he, ?_, hcells⟩
      obtain ⟨others, hbefore, -⟩ := exists_elsewhere ht
      rw [hbefore, hstack]
      simp [Activation.carries]
      omega
  | leftLine => exact Or.inl ⟨rfl, .abandoned _⟩
  | _ => exact Or.inl ⟨rfl, .same⟩

/-- Cells are made and never thrown away. -/
theorem Exchange.Next.cells_length_le {x x' : Exchange} {mover : Option Nat}
    (h : x.Next mover x') : x.cells.length ≤ x'.cells.length := by
  rcases h.cells_change with ⟨-, hcells⟩ | ⟨i, e, -, -, hcells⟩
  · generalize x'.cells = cells' at hcells
    cases hcells <;> simp
  · simp [hcells]

/-- A cell that does not wait any more keeps what it has. -/
theorem Exchange.Next.cell_keeps {x x' : Exchange} {mover : Option Nat} (h : x.Next mover x')
    {id : Nat} {c : Cell} (hc : x.cells[id]? = some c) (hne : c ≠ .waiting) :
    x'.cells[id]? = some c := by
  have hmodify : ∀ (cells : List Cell) (i : Nat) (f : Cell → Cell), f c = c →
      cells[id]? = some c → (cells.modify i f)[id]? = some c := by
    intro cells i f hf hcells
    rw [List.getElem?_modify, hcells]
    by_cases hi : i = id <;> simp [hi, hf]
  have habandon : Cell.abandon c = c := by cases c <;> simp_all [Cell.abandon]
  have happend : (x.cells ++ [.waiting])[id]? = some c := by
    rw [List.getElem?_append_left (List.getElem?_eq_some_iff.mp hc).1]
    exact hc
  rcases h.cells_change with ⟨-, hcells⟩ | ⟨i, e, -, -, hcells⟩
  · generalize x'.cells = cells' at hcells
    cases hcells with
    | same => exact hc
    | made => exact happend
    | abandoned i => exact hmodify _ _ _ habandon hc
    | turnedAway => exact hmodify _ _ _ habandon happend
  · rw [hcells]
    exact hmodify _ _ _ (by cases c <;> simp_all [Cell.deliver]) hc

theorem orderly_of_fresh {w : World} (h : w.Fresh) : w.exchange.Orderly := by
  have hplaces : ∀ id, w.exchange.places id = 0 := by
    intro id
    simp [Exchange.places, Exchange.carriers, World.exchange, h.loops, h.slot, h.threads]
  refine ⟨⟨?_, ?_, ?_⟩, fun id => ?_⟩
  · simp [World.exchange, h.loops]
  · simp [World.exchange, h.loops]
  · simp [World.exchange, h.slot]
  · rw [hplaces]
    simp

theorem orderly_of_run {past : List Transition} {w : World} (h : Run past w) :
    w.exchange.Orderly := by
  induction h with
  | start hactive hpeak h => exact orderly_of_fresh (fresh_of_start h)
  | step h hstep ih => exact (next_of_step hstep).orderly ih

/-- The executions of requests that ended along a run, latest first. -/
def endings (past : List Transition) : List (Nat × Ending) :=
  past.filterMap fun x => x.before.exchange.ending x.mover

/-- The execution of a request ends at most once, and then its cell holds what came of it. -/
theorem endings_of_run {past : List Transition} {w : World} (h : Run past w) (id : Nat) :
    ((endings past).filter (·.1 == id) = [] ∧ ∀ r, w.cells[id]? ≠ some (.replied r)) ∨
      ∃ e, (endings past).filter (·.1 == id) = [(id, e)] ∧
        w.cells[id]? = some (.replied e.reply) := by
  induction h with
  | start hactive hpeak h =>
    left
    simp [endings, (fresh_of_start h).cells]
  | @step past w w' mover h hstep ih =>
    have hnext := next_of_step hstep
    have horderly := orderly_of_run h
    rcases hnext.cells_change with ⟨hnone, hcells⟩ | ⟨i, e, hsome, hplace, hcells⟩
    · have hendings : endings (⟨w, mover, w'⟩ :: past) = endings past := by
        simp [endings, hnone]
      rw [hendings]
      rcases ih with ⟨hempty, hreplied⟩ | ⟨e, hone, hcell⟩
      · exact Or.inl ⟨hempty, fun r hr => hreplied r (hcells.replied hr)⟩
      · exact Or.inr ⟨e, hone, hnext.cell_keeps hcell (by simp)⟩
    · have hendings : endings (⟨w, mover, w'⟩ :: past) = (i, e) :: endings past := by
        simp [endings, hsome]
      obtain ⟨hone, hwaiting⟩ := horderly.unanswered i
      have hcell : w.cells[i]? = some .waiting := hwaiting (by omega)
      have hcells : w'.cells = w.cells.modify i (.deliver e) := hcells
      rw [hendings, hcells]
      by_cases hi : i = id
      · subst hi
        rcases ih with ⟨hempty, -⟩ | ⟨e', -, hreplied⟩
        · refine Or.inr ⟨e, by simp [hempty], ?_⟩
          simp [hcell, Cell.deliver]
        · rw [hcell] at hreplied
          cases hreplied
      · rw [List.filter_cons_of_neg (by simpa using hi), List.getElem?_modify_ne _ _ hi]
        exact ih

end ScriptHost.Service
