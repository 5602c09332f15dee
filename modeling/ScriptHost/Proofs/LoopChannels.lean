import ScriptHost.Proofs.RequestCells

/-!
The channels of a message loop. Requests are posted to a loop and taken from it in that
order, and a loop keeps the first signal it accepts. A loop is pumped by one activation,
which has a request directly above it while it processes one. So a loop that leaves has
answered every request that was posted to it, or skipped it because it was cancelled.
-/

namespace ScriptHost.Service

namespace Exchange

variable {x : Exchange} {l : MessageLoop} {id : Nat}

theorem findLoop_id (h : x.findLoop id = some l) : l.id = id := by
  simpa using List.find?_some h

theorem findLoop_cons (x : Exchange) (l : MessageLoop) (id nextLoop : Nat) :
    { x with loops := l :: x.loops, nextLoop }.findLoop id =
      if id = l.id then some l else x.findLoop id := by
  unfold findLoop
  rw [List.find?_cons]
  by_cases hid : id = l.id
  · simp [hid]
  · have hne : (l.id == id) = false := by simpa using Ne.symm hid
    simp [hne, hid]

theorem Sound.findLoop_update (h : x.Sound) (hl : l ∈ x.loops) (f : MessageLoop → MessageLoop)
    (hf : (f l).id = l.id) (id : Nat) :
    (x.updateLoop l.id f).findLoop id = if id = l.id then some (f l) else x.findLoop id := by
  obtain ⟨inner, outer, hloops, hupdate, -⟩ := h.split hl
  have hnodup := h.loops_nodup
  rw [hloops, List.map_append, List.map_cons] at hnodup
  have hinner : ∀ l' ∈ inner, l'.id ≠ l.id := by
    intro l' hl' heq
    have hnot := (List.nodup_cons.mp (List.nodup_middle.mp hnodup)).1
    exact hnot (List.mem_append_left _ (heq ▸ List.mem_map_of_mem hl'))
  unfold findLoop
  rw [hupdate, hloops, List.find?_append, List.find?_append, List.find?_cons, List.find?_cons]
  by_cases hid : id = l.id
  · have hnone : inner.find? (·.id == l.id) = none := by
      apply List.find?_eq_none.mpr
      intro l' hl'
      simpa using hinner l' hl'
    simp [hid, hf, hnone]
  · have hne : (l.id == id) = false := by simpa using Ne.symm hid
    simp [hid, hf, hne]

theorem Sound.findLoop_of_mem (h : x.Sound) (hl : l ∈ x.loops) : x.findLoop l.id = some l := by
  have hfound : (x.updateLoop l.id fun l => l).findLoop l.id = some l := by
    rw [h.findLoop_update hl (fun l => l) rfl, if_pos rfl]
  have hsame : (x.updateLoop l.id fun l => l).loops = x.loops := by
    simp [Exchange.updateLoop]
  unfold findLoop at hfound ⊢
  rwa [hsame] at hfound

theorem findLoop_filter (x : Exchange) (id gone : Nat) :
    { x with loops := x.loops.filter (·.id != gone) }.findLoop id =
      if id = gone then none else x.findLoop id := by
  unfold findLoop
  rw [List.find?_filter]
  by_cases hid : id = gone
  · rw [if_pos hid]
    apply List.find?_eq_none.mpr
    intro l' _
    simp [hid]
  · rw [if_neg hid]
    congr 1
    funext l'
    by_cases hl' : l'.id = id <;> simp [hl', hid]

end Exchange

/-- The signal with which an activation that pumps a loop parts, and the request directly above
it. -/
abbrev Pump := Option (Signal × Bool) × Option Nat

/-- The activations in a stack that pump the loop `id`. `above` is the request directly above the
stack. -/
def pumping (id : Nat) : Option Nat → List Activation → Multiset Pump
  | _, [] => 0
  | above, .loop id' phase :: rest =>
    (if id' = id ∧ phase.pumps then {(phase.parting?, above)} else 0) + pumping id none rest
  | _, .request r :: rest => pumping id (some r) rest
  | _, _ :: rest => pumping id none rest

/-- Neither a loop nor a request. -/
def Activation.aside : Activation → Bool
  | .loop _ _ | .request _ => false
  | _ => true

theorem aside_of_plain {a : Activation} (h : a.plain) : a.aside := by
  cases a <;> simp_all [Activation.plain, Activation.aside]

theorem all_aside_of_plain {top : List Activation} (h : top.all Activation.plain) :
    top.all Activation.aside := by
  simp only [List.all_eq_true] at h ⊢
  exact fun a ha => aside_of_plain (h a ha)

theorem Begins.aside {o : Order} {above : List Activation} {c : Control} (h : Begins o above c) :
    above.all Activation.aside := by
  cases h with
  | refused e => rfl
  | entering => rfl
  | handed above loop control habove =>
    rw [List.all_append, all_aside_of_plain habove]
    rfl

section Pumping

variable {id : Nat} {above : Option Nat} {top rest : List Activation}

theorem pumping_cons_of_aside {a : Activation} (h : a.aside) :
    pumping id above (a :: rest) = pumping id none rest := by
  cases a <;> first | rfl | cases h

theorem pumping_append (h : top.all Activation.aside) :
    pumping id none (top ++ rest) = pumping id none rest := by
  induction top with
  | nil => rfl
  | cons a top ih =>
    simp only [List.all_cons, Bool.and_eq_true] at h
    rw [List.cons_append, pumping_cons_of_aside h.1, ih h.2]

theorem pumping_loop (id' : Nat) (phase : LoopPhase) :
    pumping id above (.loop id' phase :: rest) =
      (if id' = id ∧ phase.pumps then {(phase.parting?, above)} else 0) + pumping id none rest :=
  rfl

theorem pumping_request (r : Nat) :
    pumping id above (.request r :: rest) = pumping id (some r) rest := rfl

/-- What is above a stack matters to the loop at its top only. -/
theorem pumping_above (id : Nat) (r : Nat) (rest : List Activation) :
    pumping id (some r) rest = pumping id none rest ∨
      ∃ taken others, pumping id (some r) rest = (taken, some r) ::ₘ others ∧
        pumping id none rest = (taken, none) ::ₘ others := by
  cases rest with
  | nil => exact Or.inl rfl
  | cons a rest =>
    cases a with
    | loop id' phase =>
      rw [pumping_loop, pumping_loop]
      by_cases h : id' = id ∧ phase.pumps
      · rw [if_pos h, if_pos h]
        exact Or.inr ⟨phase.parting?, _, rfl, rfl⟩
      · rw [if_neg h, if_neg h]
        exact Or.inl rfl
    | _ => exact Or.inl rfl

/-- An activation of a registered loop pumps it. -/
theorem pumping_of_mem {phase : LoopPhase} {s : List Activation} (h : .loop id phase ∈ s)
    (hpumps : phase.pumps = true) (above : Option Nat) :
    ∃ above', (phase.parting?, above') ∈ pumping id above s := by
  induction s generalizing above with
  | nil => cases h
  | cons a rest ih =>
    rcases List.mem_cons.mp h with rfl | hrest
    · refine ⟨above, ?_⟩
      rw [pumping_loop, if_pos ⟨rfl, hpumps⟩]
      exact Multiset.mem_add.mpr (Or.inl (Multiset.mem_singleton_self _))
    · cases a with
      | loop id' phase' =>
        obtain ⟨above', hmem⟩ := ih hrest none
        exact ⟨above', Multiset.mem_add.mpr (Or.inr hmem)⟩
      | request r => exact ih hrest (some r)
      | _ => exact ih hrest none

theorem Still.pumping_le {s s' : List Activation} (h : Still s s') (id : Nat) :
    pumping id none s' ≤ pumping id none s := by
  cases h with
  | plain a top rest ha htop =>
    rw [pumping_append (all_aside_of_plain htop), pumping_cons_of_aside (aside_of_plain ha)]
  | ended a rest hrequest =>
    cases a with
    | loop id' phase =>
      rw [pumping_loop]
      exact Multiset.le_add_left _ _
    | request r => exact absurd rfl (hrequest r)
    | _ => exact le_refl _
  | exec o phase phase' above rest habove =>
    rw [pumping_append (all_aside_of_plain habove)]
    exact le_refl _
  | loop id' phase phase' rest hpumps hparting =>
    rw [pumping_loop, pumping_loop, hpumps, hparting]
  | entering phase phase' work rest => exact le_refl _

end Pumping

/-- The signal with which the next step of a loop can remove it. -/
def LoopPhase.last? : LoopPhase → Option Signal
  | leaving signal | popping signal => some signal
  | _ => none

/-- What a step does to the channels of the loop `id` and to the activation that pumps it;
`p` and `p'` tell of that activation before and after. `Leaves` says of a signal that the
thread that takes the step is about to leave the loop with it. -/
inductive ChannelStep (id : Nat) (Leaves : Signal → Prop) (x x' : Exchange) :
    Multiset Pump → Multiset Pump → Prop
  | idle {p p' : Multiset Pump} (hloop : x'.findLoop id = x.findLoop id)
      (hp : p' ≤ p) : ChannelStep id Leaves x x' p p'
  | served {others p' : Multiset Pump} (r : Nat) (reply : Reply)
      (taken : Option (Signal × Bool)) (hloop : x'.findLoop id = x.findLoop id)
      (hcell : x'.cells[r]? = some (.replied reply)) (hp : p' ≤ (taken, none) ::ₘ others) :
      ChannelStep id Leaves x x' ((taken, some r) ::ₘ others) p'
  | posted {p p' : Multiset Pump} (l : MessageLoop) (r : Request)
      (hl : x.findLoop id = some l)
      (hl' : x'.findLoop id = some { l with requests := l.requests ++ [r] })
      (hr : r.id = x.cells.length) (hcells : x'.cells.length = x.cells.length + 1)
      (hopen : l.leaving = false) (hp : p' ≤ p) : ChannelStep id Leaves x x' p p'
  | skipped {others : Multiset Pump} (l : MessageLoop) (r : Request)
      (requests : List Request) (signal : Option (Signal × Bool)) (hl : x.findLoop id = some l)
      (hr : l.requests = r :: requests) (hl' : x'.findLoop id = some { l with requests })
      (hcancelled : r.options.token.any x.cancelled.contains = true)
      (hcell : x'.cells[r.id]? = some .dropped) :
      ChannelStep id Leaves x x' ((signal, none) ::ₘ others) ((signal, none) ::ₘ others)
  | taken {others : Multiset Pump} (l : MessageLoop) (r : Request)
      (requests : List Request) (signal : Option (Signal × Bool)) (hl : x.findLoop id = some l)
      (hr : l.requests = r :: requests) (hl' : x'.findLoop id = some { l with requests })
      (hcancelled : r.options.token.any x.cancelled.contains = false) :
      ChannelStep id Leaves x x' ((signal, none) ::ₘ others) ((signal, some r.id) ::ₘ others)
  | signalled {p p' : Multiset Pump} (l : MessageLoop) (signal : Signal)
      (hl : x.findLoop id = some l) (hsignal : l.signal = none)
      (hl' : x'.findLoop id = some { l with signal := some signal }) (hp : p' ≤ p) :
      ChannelStep id Leaves x x' p p'
  | consumed {others : Multiset Pump} (l : MessageLoop) (signal : Signal)
      (hl : x.findLoop id = some l) (hsignal : l.signal = some signal)
      (hl' : x'.findLoop id = some { l with signal := none }) :
      ChannelStep id Leaves x x' ((none, none) ::ₘ others) ((some (signal, false), none) ::ₘ others)
  | locked {others : Multiset Pump} (l : MessageLoop)
      (signal : Signal) (hl : x.findLoop id = some l) (hrequests : l.requests = [])
      (hl' : x'.findLoop id = some { l with leaving := true }) :
      ChannelStep id Leaves x x' ((some (signal, false), none) ::ₘ others)
        ((some (signal, true), none) ::ₘ others)
  | opened {p p' : Multiset Pump} (l : MessageLoop)
      (hid : id = x.nextLoop) (hnext : x'.nextLoop = x.nextLoop + 1)
      (hl : x.findLoop id = none) (hl' : x'.findLoop id = some l) (hrequests : l.requests = [])
      (hsignal : l.signal = none) (hp : p' ≤ (none, none) ::ₘ p) : ChannelStep id Leaves x x' p p'
  | closed {others p' : Multiset Pump} (l : MessageLoop) (signal : Signal)
      (locked : Bool) (hl : x.findLoop id = some l) (hl' : x'.findLoop id = none)
      (hrequests : locked = false → l.requests = []) (hleaves : Leaves signal) (hp : p' ≤ others) :
      ChannelStep id Leaves x x' ((some (signal, locked), none) ::ₘ others) p'

section Traffic

variable {Leaves : Signal → Prop} {x x' : Exchange} {c c' : Control} {s s' : List Activation}

/-- A step that leaves the loops alone and pumps no more than before. -/
theorem ChannelStep.of_le (id : Nat) (hloops : x'.loops = x.loops)
    (others : Multiset Pump)
    (h : pumping id none s' ≤ pumping id none s) :
    ChannelStep id Leaves x x' (pumping id none s + others) (pumping id none s' + others) := by
  refine .idle ?_ (add_le_add_left h others)
  unfold Exchange.findLoop
  rw [hloops]

/-- The execution of a request ended, and its loop goes on if a loop ran it. -/
theorem ChannelStep.of_ending (id : Nat) {r : Nat} (e : Ending) {rest : List Activation}
    (hloops : x'.loops = x.loops) (hcells : x'.cells = x.cells.modify r (.deliver e))
    (hr : x.cells[r]? = some .waiting) (others : Multiset Pump) :
    ChannelStep id Leaves x x' (pumping id none (.request r :: rest) + others)
      (pumping id none rest + others) := by
  have hloop : x'.findLoop id = x.findLoop id := by
    unfold Exchange.findLoop
    rw [hloops]
  rw [pumping_request]
  rcases pumping_above id r rest with hsame | ⟨taken, others', habove, hbelow⟩
  · rw [hsame]
    exact .idle hloop (le_refl _)
  · rw [habove, hbelow, Multiset.cons_add, Multiset.cons_add]
    refine .served r e.reply taken hloop ?_ (le_refl _)
    simp [hcells, hr, Cell.deliver]

theorem not_leaving_of_not_held (h : x.loopsHeld = false) {l : MessageLoop} (hl : l ∈ x.loops) :
    l.leaving = false := by
  simpa using List.any_eq_false.mp h l hl

theorem Traffic.channel (h : Traffic x c s x' c' s') (hx : x.Sound)
    (hfree : x.loopsHeld = true → ¬Routes c s) (elsewhere : Nat → Nat)
    (hu : Unanswered x.cells fun id => x.carriers id + carried id s + elsewhere id) (id : Nat)
    (others : Multiset Pump) :
    ChannelStep id (fun signal => ∃ phase rest, s = .loop id phase :: rest ∧
      phase.last? = some signal) x x'
      (pumping id none s + others) (pumping id none s' + others) := by
  have hwaiting : ∀ r, 1 ≤ x.carriers r + carried r s → x.cells[r]? = some .waiting := by
    intro r hr
    obtain ⟨hone, hcell⟩ := hu r
    dsimp only at hone hcell
    exact hcell (by omega)
  have hsame : ∀ {x' : Exchange}, x'.loops = x.loops →
      pumping id none s' ≤ pumping id none s →
      ChannelStep id (fun signal => ∃ phase rest, s = .loop id phase :: rest ∧
      phase.last? = some signal) x x'
        (pumping id none s + others) (pumping id none s' + others) :=
    fun hloops hp => .of_le id hloops others hp
  cases h with
  | quiet h => exact hsame rfl (h.pumping_le id)
  | spawnedReader handle read h => exact hsame rfl (h.pumping_le id)
  | returned r r' =>
    refine .of_ending id (.returned r) ?_ ?_ (hwaiting r' ?_) others
    · rfl
    · rfl
    · simp [Activation.carries]
      omega
  | caught p r =>
    refine .of_ending id (.panicked p) ?_ ?_ (hwaiting r ?_) others
    · rfl
    · rfl
    · simp [Activation.carries]
      omega
  | joined o worker r above rest habove | reclaimed o i r above rest hparked habove
  | started h o above rest habove | enteredOrder frame h o above rest habove =>
    refine hsame rfl ?_
    rw [pumping_append (all_aside_of_plain habove)]
    exact le_refl _
  | reentered o a top rest ha htop | pickedUp i r a top rest hparked ha htop =>
    refine hsame rfl ?_
    rw [pumping_cons_of_aside (aside_of_plain ha), pumping_cons_of_aside rfl,
      pumping_append (all_aside_of_plain htop)]
  | inlined o above rest h =>
    refine hsame rfl ?_
    rw [pumping_append h.aside]
    exact le_refl _
  | enteredRequest frame h r above rest habove =>
    refine hsame rfl ?_
    rw [pumping_append (all_aside_of_plain habove)]
    exact le_refl _
  | posted o l rest hl =>
    have hfound : (x.newCell.updateLoop l.id fun l =>
        { l with requests := l.requests ++ [o.toRequest x.cells.length] }).findLoop id =
        if id = l.id then some { l with requests := l.requests ++ [o.toRequest x.cells.length] }
          else x.findLoop id :=
      Exchange.Sound.findLoop_update (x := x.newCell) ⟨hx.1, hx.2, hx.3⟩ hl _ rfl id
    by_cases hid : id = l.id
    · refine .posted l (o.toRequest x.cells.length) ?_ ?_ rfl ?_ ?_ (le_refl _)
      · rw [hid]
        exact hx.findLoop_of_mem hl
      · rw [hfound, if_pos hid]
      · simp [Exchange.updateLoop, Exchange.newCell]
      · refine not_leaving_of_not_held ?_ hl
        exact Bool.eq_false_iff.mpr fun hheld => hfree hheld ⟨rfl, o, rest, rfl⟩
    · exact .idle (by rw [hfound, if_neg hid]) (le_refl _)
  | opened l phase a top rest hid hrequests hsignal hpumps hparting ha htop =>
    have hfound := Exchange.findLoop_cons x l id (x.nextLoop + 1)
    rw [pumping_cons_of_aside (aside_of_plain ha), pumping_loop,
      pumping_append (all_aside_of_plain htop)]
    by_cases heq : id = l.id
    · refine .opened l (heq.trans hid) rfl ?_ (by rw [hfound, if_pos heq]) hrequests hsignal ?_
      · -- the name of the loop was not given to any loop before
        apply List.find?_eq_none.mpr
        intro l' hl'
        have := hx.loops_made l' hl'
        simp only [beq_iff_eq]
        omega
      · rw [if_pos ⟨heq.symm, hpumps⟩, hparting, add_assoc, Multiset.singleton_add]
    · refine .idle (by rw [hfound, if_neg heq]) ?_
      rw [if_neg fun h => heq h.1.symm, zero_add]
  | signalled l signal hl hsignal h =>
    have hfound := hx.findLoop_update (Exchange.mem_of_findLoop hl)
      (fun l => { l with signal := some signal }) rfl id
    have hp := add_le_add_left (h.pumping_le id) others
    by_cases hid : id = l.id
    · exact .signalled l signal (hid ▸ hl) hsignal (by rw [hfound, if_pos hid]) hp
    · exact .idle (by rw [hfound, if_neg hid]) hp
  | consumed l signal rest hl hsignal =>
    have hfound := hx.findLoop_update (Exchange.mem_of_findLoop hl)
      (fun l => { l with signal := none }) rfl id
    rw [pumping_loop, pumping_loop]
    by_cases hid : id = l.id
    · rw [if_pos ⟨hid.symm, rfl⟩, if_pos ⟨hid.symm, rfl⟩, add_assoc, add_assoc,
        Multiset.singleton_add, Multiset.singleton_add]
      exact .consumed l signal (hid ▸ hl) hsignal (by rw [hfound, if_pos hid])
    · rw [if_neg fun h => hid h.1.symm, if_neg fun h => hid h.1.symm]
      exact .idle (by rw [hfound, if_neg hid]) (le_refl _)
  | skipped l r requests phase phase' rest hl hr hcancelled hpumps hparting =>
    have hmem := Exchange.mem_of_findLoop hl
    have hfound : ((x.updateLoop l.id fun l => { l with requests }).setCell r.id .abandon).findLoop
        id = if id = l.id then some { l with requests } else x.findLoop id :=
      hx.findLoop_update hmem (fun l => { l with requests }) rfl id
    rw [pumping_loop, pumping_loop, hparting]
    by_cases hid : id = l.id
    · rw [if_pos ⟨hid.symm, hpumps.1⟩, if_pos ⟨hid.symm, hpumps.2⟩, add_assoc,
        Multiset.singleton_add]
      refine .skipped l r requests phase.parting? (hid ▸ hl) hr (by rw [hfound, if_pos hid])
        hcancelled ?_
      have hcell : x.cells[r.id]? = some .waiting := by
        apply hwaiting
        obtain ⟨queued, hcarriers, -⟩ := hx.carriers_update hmem r.id
        rw [hcarriers, hr, List.countP_cons_of_pos (by simp)]
        omega
      simp [Exchange.setCell, Exchange.updateLoop, hcell, Cell.abandon]
    · rw [if_neg fun h => hid h.1.symm, if_neg fun h => hid h.1.symm]
      exact .idle (by rw [hfound, if_neg hid]) (le_refl _)
  | taken l r requests phase phase' above rest hl hr hcancelled hpumps hparting h =>
    have hfound := hx.findLoop_update (Exchange.mem_of_findLoop hl)
      (fun l => { l with requests }) rfl id
    rw [pumping_append h.aside, pumping_request, pumping_loop, pumping_loop, hparting]
    by_cases hid : id = l.id
    · rw [if_pos ⟨hid.symm, hpumps.1⟩, if_pos ⟨hid.symm, hpumps.2⟩, add_assoc, add_assoc,
        Multiset.singleton_add, Multiset.singleton_add]
      exact .taken l r requests phase.parting? (hid ▸ hl) hr (by rw [hfound, if_pos hid]) hcancelled
    · rw [if_neg fun h => hid h.1.symm, if_neg fun h => hid h.1.symm]
      exact .idle (by rw [hfound, if_neg hid]) (le_refl _)
  | locked l signal rest hl hr =>
    have hfound := hx.findLoop_update (Exchange.mem_of_findLoop hl)
      (fun l => { l with leaving := true }) rfl id
    rw [pumping_loop, pumping_loop]
    by_cases hid : id = l.id
    · rw [if_pos ⟨hid.symm, rfl⟩, if_pos ⟨hid.symm, rfl⟩, add_assoc, add_assoc,
        Multiset.singleton_add, Multiset.singleton_add]
      exact .locked l signal (hid ▸ hl) hr (by rw [hfound, if_pos hid])
    · rw [if_neg fun h => hid h.1.symm, if_neg fun h => hid h.1.symm]
      exact .idle (by rw [hfound, if_neg hid]) (le_refl _)
  | closed l signal phase above rest hl hphase habove =>
    have hfound := Exchange.findLoop_filter x id l.id
    have hp : pumping id none (above ++ rest) = pumping id none rest := by
      rcases habove with rfl | ⟨action, rfl⟩
      · rfl
      · rw [List.singleton_append, pumping_loop, if_neg fun h => by cases h.2]
        exact zero_add _
    obtain ⟨locked, hpumps, hparting, hlast, hrequests⟩ : ∃ locked, phase.pumps = true ∧
        phase.parting? = some (signal, locked) ∧ phase.last? = some signal ∧
        (locked = false → l.requests = []) := by
      rcases hphase with ⟨rfl, hr⟩ | rfl
      · exact ⟨false, rfl, rfl, rfl, fun _ => hr⟩
      · exact ⟨true, rfl, rfl, rfl, by simp⟩
    rw [hp, pumping_loop]
    by_cases hid : id = l.id
    · rw [if_pos ⟨hid.symm, hpumps⟩, hparting, add_assoc, Multiset.singleton_add]
      exact .closed l signal locked (hid ▸ hl) (by rw [hfound, if_pos hid]) hrequests
        ⟨phase, rest, by rw [hid], hlast⟩ (le_refl _)
    · rw [if_neg fun h => hid h.1.symm, zero_add]
      exact .idle (by rw [hfound, if_neg hid]) (le_refl _)
  | _ => exact hsame rfl (le_refl _)

end Traffic

/-- The step speaks of loops and cells only. -/
theorem ChannelStep.lift {id k : Nat} {t : Thread} {Leaves Leaves' : Signal → Prop}
    {x x' : Exchange} {p p' : Multiset Pump}
    (h : ChannelStep id Leaves x x' p p') (himp : ∀ signal, Leaves signal → Leaves' signal) :
    ChannelStep id Leaves' x (x'.setThread k t) p p' := by
  cases h with
  | idle hloop hp => exact .idle hloop hp
  | served r reply taken hloop hcell hp => exact .served r reply taken hloop hcell hp
  | posted l r hl hl' hr hcells hopen hp => exact .posted l r hl hl' hr hcells hopen hp
  | skipped l r requests signal hl hr hl' hcancelled hcell =>
    exact .skipped l r requests signal hl hr hl' hcancelled hcell
  | taken l r requests signal hl hr hl' hcancelled =>
    exact .taken l r requests signal hl hr hl' hcancelled
  | signalled l signal hl hsignal hl' hp => exact .signalled l signal hl hsignal hl' hp
  | consumed l signal hl hsignal hl' => exact .consumed l signal hl hsignal hl'
  | opened l hid hnext hl hl' hrequests hsignal hp =>
    exact .opened l hid hnext hl hl' hrequests hsignal hp
  | locked l signal hl hrequests hl' => exact .locked l signal hl hrequests hl'
  | closed l signal locked hl hl' hrequests hleaves hp =>
    exact .closed l signal locked hl hl' hrequests (himp signal hleaves) hp

/-- The thread that takes a step is about to leave the loop `id` with a signal. -/
def Exchange.Leaves (x : Exchange) (mover : Option Nat) (id : Nat) (signal : Signal) : Prop :=
  ∃ k t phase rest, mover = some k ∧ x.threads[k]? = some t ∧
    t.stack = .loop id phase :: rest ∧ phase.last? = some signal

namespace Exchange

/-- The activations that pump the loop `id`, over all threads. -/
def pumping (x : Exchange) (id : Nat) : Multiset Pump :=
  total (fun _ t => Service.pumping id none t.stack) x.threads

theorem Next.channel {x x' : Exchange} {mover : Option Nat} (h : x.Next mover x')
    (hx : x.Orderly) (id : Nat) :
    ChannelStep id (x.Leaves mover id) x x' (x.pumping id) (x'.pumping id) := by
  cases h with
  | @move k t t' x' ht hfree h =>
    obtain ⟨new, hnew, hkinds⟩ := h.threads_eq
    have hnone : total (fun _ t => Service.pumping id none t.stack) new = 0 := by
      rcases hkinds with rfl | ⟨handle, read, rfl⟩ | ⟨handle, o, rfl⟩ <;> rfl
    obtain ⟨elsewhere, hplaces, -⟩ := exists_elsewhere ht
    obtain ⟨others, hbefore, hafter⟩ := exists_others_append
      (f := fun _ t => Service.pumping id none t.stack) ht
    have hstep := h.channel hx.sound hfree elsewhere
      (by simpa only [← hplaces] using hx.unanswered) id others
    have hset := hafter t' new
    rw [← hnew, hnone, zero_add] at hset
    rw [← hbefore, ← hset] at hstep
    refine hstep.lift ?_
    rintro signal ⟨phase, rest, hs, hlast⟩
    exact ⟨k, t, phase, rest, rfl, ht, hs, hlast⟩
  | @called a h =>
    refine .idle rfl ?_
    have hnone : Service.pumping id none [a] = 0 := by cases h <;> rfl
    simp only [pumping, spawn, total_append, total_singleton, hnone, add_zero, le_refl]
  | told tokens => exact .idle rfl (le_refl _)
  | signalled l signal hl hsignal =>
    have hfound := hx.sound.findLoop_update (mem_of_findLoop hl)
      (fun l => { l with signal := some signal }) rfl id
    by_cases hid : id = l.id
    · exact .signalled l signal (hid ▸ hl) hsignal (by rw [hfound, if_pos hid]) (le_refl _)
    · exact .idle (by rw [hfound, if_neg hid]) (le_refl _)
  | dropped ht hs hcontrol t' hs' hcontrol' | leftLine ht hs t' hs' hcontrol'
  | returned ht hs t' hs' hcontrol' =>
    obtain ⟨others, hbefore, hafter⟩ := exists_others
      (f := fun _ t => Service.pumping id none t.stack) ht
    refine .idle rfl ?_
    have hset := hafter t'
    rw [hs'] at hset
    change total _ _ ≤ total _ _
    rw [hbefore]
    refine le_trans (le_of_eq hset) ?_
    exact add_le_add_left (Multiset.zero_le _) _

end Exchange

section Logs

/-- What a step posts to the loop `id`. -/
def Transition.posted (x : Transition) (id : Nat) : List Request :=
  match x.before.findLoop id, x.after.findLoop id with
  | some l, some l' => l'.requests.drop l.requests.length
  | _, _ => []

/-- What a step takes from the loop `id`, each request with whether it was cancelled. -/
def Transition.taken (x : Transition) (id : Nat) : List (Request × Bool) :=
  match x.before.findLoop id, x.after.findLoop id with
  | some l, some l' =>
    (l.requests.take (l.requests.length - l'.requests.length)).map fun r =>
      (r, x.before.isCancelled r.options.token)
  | _, _ => []

/-- The signal that the loop `id` accepts in a step. -/
def Transition.accepted (x : Transition) (id : Nat) : List Signal :=
  match x.before.findLoop id, x.after.findLoop id with
  | some l, some l' => if l.signal.isNone then l'.signal.toList else []
  | _, _ => []

/-- What was posted to the loop `id` along a run, in order. -/
def posted (id : Nat) : List Transition → List Request
  | [] => []
  | x :: past => posted id past ++ x.posted id

/-- What was taken from the loop `id` along a run, in order. -/
def taken (id : Nat) : List Transition → List (Request × Bool)
  | [] => []
  | x :: past => taken id past ++ x.taken id

/-- The signals that the loop `id` accepted along a run, in order. -/
def accepted (id : Nat) : List Transition → List Signal
  | [] => []
  | x :: past => accepted id past ++ x.accepted id

variable {x : Transition} {id : Nat} {l l' : MessageLoop}

theorem log_of_change (hl : x.before.exchange.findLoop id = some l)
    (hl' : x.after.exchange.findLoop id = some l') :
    x.posted id = l'.requests.drop l.requests.length ∧
    x.taken id = (l.requests.take (l.requests.length - l'.requests.length)).map
      (fun r => (r, x.before.isCancelled r.options.token)) ∧
    x.accepted id = if l.signal.isNone then l'.signal.toList else [] := by
  have hl : x.before.findLoop id = some l := hl
  have hl' : x.after.findLoop id = some l' := hl'
  simp only [Transition.posted, Transition.taken, Transition.accepted, hl, hl', and_self]

theorem log_of_same (h : x.after.exchange.findLoop id = x.before.exchange.findLoop id) :
    x.posted id = [] ∧ x.taken id = [] ∧ x.accepted id = [] := by
  cases hl : x.before.exchange.findLoop id with
  | none =>
    have hl : x.before.findLoop id = none := hl
    simp [Transition.posted, Transition.taken, Transition.accepted, hl]
  | some l =>
    obtain ⟨hposted, htaken, haccepted⟩ := log_of_change hl (h.trans hl)
    refine ⟨by simp [hposted], by simp [htaken], ?_⟩
    rw [haccepted]
    cases l.signal <;> rfl

theorem log_of_none (h : x.before.exchange.findLoop id = none ∨
    x.after.exchange.findLoop id = none) :
    x.posted id = [] ∧ x.taken id = [] ∧ x.accepted id = [] := by
  rcases h with h | h
  · have h : x.before.findLoop id = none := h
    simp [Transition.posted, Transition.taken, Transition.accepted, h]
  · have h : x.after.findLoop id = none := h
    simp only [Transition.posted, Transition.taken, Transition.accepted, h]
    cases x.before.findLoop id <;> simp

end Logs

section Runs

variable {past : List Transition} {w : World} {id : Nat}

theorem eq_zero_of_card_cons_le {a : Pump} {others : Multiset Pump}
    (h : (a ::ₘ others).card ≤ 1) : others = 0 := by
  rw [Multiset.card_cons] at h
  exact Multiset.card_eq_zero.mp (by omega)

/-- A loop that is registered is pumped by one activation at most, and any other by none. -/
theorem pumping_of_run (h : Run past w) (id : Nat) :
    (w.exchange.pumping id).card ≤ 1 ∧
      (w.exchange.findLoop id = none → w.exchange.pumping id = 0) := by
  induction h with
  | start hactive hpeak h =>
    simp [Exchange.pumping, World.exchange, (fresh_of_start h).threads]
  | @step past w w' mover h hstep ih =>
    have hchannel := (next_of_step hstep).channel (orderly_of_run h) id
    generalize w.exchange.pumping id = p, w'.exchange.pumping id = p' at hchannel ih
    obtain ⟨hone, hnone⟩ := ih
    have hle : ∀ q : Multiset Pump, p' ≤ q → q.card ≤ 1 → p'.card ≤ 1 :=
      fun q hq hcard => le_trans (Multiset.card_le_card hq) hcard
    cases hchannel with
    | idle hloop hp =>
      refine ⟨hle _ hp hone, fun hl' => ?_⟩
      rw [hloop] at hl'
      rw [hnone hl'] at hp
      exact Multiset.le_zero.mp hp
    | served r reply taken hloop hcell hp =>
      refine ⟨hle _ hp (by simpa using hone), fun hl' => ?_⟩
      rw [hloop] at hl'
      exact absurd (hnone hl') (Multiset.cons_ne_zero)
    | opened l hid hnext hl hl' hrequests hsignal hp =>
      rw [hnone hl] at hp
      exact ⟨hle _ hp (by simp), fun h => by rw [hl'] at h; cases h⟩
    | closed l signal locked hl hl' hrequests hleaves hp =>
      have hothers : p' = 0 := by
        rw [Multiset.card_cons] at hone
        have := Multiset.card_le_card hp
        exact Multiset.card_eq_zero.mp (by omega)
      rw [hothers]
      simp
    | posted l r hl hl' hr hcells hopen hp | signalled l signal hl hsignal hl' hp =>
      exact ⟨hle _ hp hone, fun h => by rw [hl'] at h; cases h⟩
    | skipped l r requests signal hl hr hl' | taken l r requests signal hl hr hl'
    | consumed l signal hl hsignal hl' | locked l signal hl hrequests hl' =>
      exact ⟨by simpa using hone, fun h => by rw [hl'] at h; cases h⟩

theorem Traffic.nextLoop_le {x x' : Exchange} {c c' : Control} {s s' : List Activation}
    (h : Traffic x c s x' c' s') : x.nextLoop ≤ x'.nextLoop := by
  cases h with
  | opened => exact Nat.le_succ _
  | _ => exact le_refl _

theorem Exchange.Next.nextLoop_le {x x' : Exchange} {mover : Option Nat} (h : x.Next mover x') :
    x.nextLoop ≤ x'.nextLoop := by
  cases h with
  | move ht hfree h => exact h.nextLoop_le
  | _ => exact le_refl _

/-- Nothing is posted to a loop that was not opened yet. -/
theorem unopened_of_run (h : Run past w) (hid : w.nextLoop ≤ id) :
    posted id past = [] ∧ taken id past = [] ∧ accepted id past = [] := by
  induction h with
  | start => exact ⟨rfl, rfl, rfl⟩
  | @step past w w' mover h hstep ih =>
    have hle : w.nextLoop ≤ w'.nextLoop := (next_of_step hstep).nextLoop_le
    obtain ⟨hposted, htaken, haccepted⟩ := ih (hle.trans hid)
    have hnone : w.exchange.findLoop id = none := by
      apply List.find?_eq_none.mpr
      intro l hl
      have : l.id < w.nextLoop := (orderly_of_run h).sound.loops_made l hl
      simp only [beq_iff_eq]
      omega
    obtain ⟨hposted', htaken', haccepted'⟩ :=
      log_of_none (x := ⟨w, mover, w'⟩) (Or.inl hnone)
    simp [posted, taken, accepted, hposted, htaken, haccepted, hposted', htaken', haccepted']

/-- What was posted to a registered loop is what was taken from it, in the same order, and
what it still has. -/
theorem queue_of_run (h : Run past w) {l : MessageLoop} (hl : w.exchange.findLoop id = some l) :
    posted id past = (taken id past).map Prod.fst ++ l.requests := by
  induction h generalizing l with
  | start hactive hpeak h =>
    simp [Exchange.findLoop, World.exchange, (fresh_of_start h).loops] at hl
  | @step past w w' mover h hstep ih =>
    have hchannel := (next_of_step hstep).channel (orderly_of_run h) id
    generalize w.exchange.pumping id = p, w'.exchange.pumping id = p' at hchannel
    rw [posted, taken]
    cases hchannel with
    | idle hloop | served r reply signal hloop =>
      obtain ⟨hposted, htaken, -⟩ := log_of_same (x := ⟨w, mover, w'⟩) hloop
      rw [hposted, htaken, List.append_nil, List.append_nil]
      exact ih (hloop ▸ hl)
    | posted l₀ r hl₀ hl' =>
      obtain ⟨hposted, htaken, -⟩ := log_of_change (x := ⟨w, mover, w'⟩) hl₀ hl'
      rw [hl'] at hl
      cases hl
      rw [hposted, htaken, ih hl₀]
      simp
    | skipped l₀ r requests signal hl₀ hr hl' | taken l₀ r requests signal hl₀ hr hl' =>
      obtain ⟨hposted, htaken, -⟩ := log_of_change (x := ⟨w, mover, w'⟩) hl₀ hl'
      rw [hl'] at hl
      cases hl
      rw [hposted, htaken, ih hl₀, hr]
      simp
    | signalled l₀ signal hl₀ hsignal hl' | consumed l₀ signal hl₀ hsignal hl'
    | locked l₀ signal hl₀ hrequests hl' =>
      obtain ⟨hposted, htaken, -⟩ := log_of_change (x := ⟨w, mover, w'⟩) hl₀ hl'
      rw [hl'] at hl
      cases hl
      rw [hposted, htaken, ih hl₀]
      simp
    | opened l₀ hid hnext hl₀ hl' hrequests =>
      obtain ⟨hposted, htaken, -⟩ := log_of_none (x := ⟨w, mover, w'⟩) (Or.inl hl₀)
      obtain ⟨hnone, hnone', -⟩ := unopened_of_run h (le_of_eq hid.symm)
      rw [hl'] at hl
      cases hl
      rw [hposted, htaken, hnone, hnone', hrequests]
      rfl
    | closed l₀ signal locked hl₀ hl' =>
      rw [hl'] at hl
      cases hl

/-- A loop that is about to pop its frame has locked the list of loops, and nothing is posted to
it any more. -/
theorem locked_of_run (h : Run past w) {l : MessageLoop} (hl : w.exchange.findLoop id = some l)
    {signal : Signal} {above : Option Nat}
    (hp : (some (signal, true), above) ∈ w.exchange.pumping id) :
    l.leaving = true ∧ l.requests = [] := by
  induction h generalizing l above with
  | start hactive hpeak h =>
    simp [Exchange.findLoop, World.exchange, (fresh_of_start h).loops] at hl
  | @step past w w' mover h hstep ih =>
    have hchannel := (next_of_step hstep).channel (orderly_of_run h) id
    obtain ⟨hone, hnone⟩ := pumping_of_run h id
    generalize w.exchange.pumping id = p, w'.exchange.pumping id = p' at hchannel ih hone hnone hp
    cases hchannel with
    | idle hloop hle => exact ih (hloop ▸ hl) (Multiset.mem_of_le hle hp)
    | served r reply taken hloop hcell hle =>
      obtain rfl := eq_zero_of_card_cons_le hone
      obtain ⟨rfl, rfl⟩ := Prod.mk.inj (Multiset.mem_singleton.mp (Multiset.mem_of_le hle hp))
      exact ih (hloop ▸ hl) (Multiset.mem_cons_self _ _)
    | posted l₀ r hl₀ hl' hr hcells hopen hle =>
      have hheld := (ih hl₀ (Multiset.mem_of_le hle hp)).1
      rw [hopen] at hheld
      cases hheld
    | skipped l₀ r requests taken hl₀ hr =>
      have hempty := (ih hl₀ hp).2
      rw [hr] at hempty
      cases hempty
    | taken l₀ r requests taken hl₀ hr =>
      obtain rfl := eq_zero_of_card_cons_le hone
      obtain ⟨rfl, rfl⟩ := Prod.mk.inj (Multiset.mem_singleton.mp hp)
      have hempty := (ih hl₀ (Multiset.mem_cons_self _ _)).2
      rw [hr] at hempty
      cases hempty
    | signalled l₀ signal' hl₀ hsignal hl' hle =>
      rw [hl'] at hl
      cases hl
      have hold := ih hl₀ (Multiset.mem_of_le hle hp)
      exact hold
    | consumed l₀ signal' hl₀ hsignal hl' =>
      obtain rfl := eq_zero_of_card_cons_le hone
      cases Multiset.mem_singleton.mp hp
    | locked l₀ signal' hl₀ hrequests hl' =>
      rw [hl'] at hl
      cases hl
      exact ⟨rfl, hrequests⟩
    | opened l₀ hid hnext hl₀ hl' hrequests hsignal hle =>
      rw [hnone hl₀] at hle
      cases Multiset.mem_singleton.mp (Multiset.mem_of_le hle hp)
    | closed l₀ signal' locked hl₀ hl' =>
      rw [hl'] at hl
      cases hl

/-- Requests are posted under new names. -/
theorem posted_of_run (h : Run past w) (id : Nat) :
    ((posted id past).map Request.id).Pairwise (· < ·) ∧
      ∀ r ∈ posted id past, r.id < w.cells.length := by
  induction h with
  | start => exact ⟨List.Pairwise.nil, by simp [posted]⟩
  | @step past w w' mover h hstep ih =>
    obtain ⟨hincreasing, hmade⟩ := ih
    have hnext := next_of_step hstep
    have hlength : w.cells.length ≤ w'.cells.length := hnext.cells_length_le
    have hchannel := hnext.channel (orderly_of_run h) id
    have hkeep : (⟨w, mover, w'⟩ : Transition).posted id = [] →
        ((posted id (⟨w, mover, w'⟩ :: past)).map Request.id).Pairwise (· < ·) ∧
          ∀ r ∈ posted id (⟨w, mover, w'⟩ :: past), r.id < w'.cells.length := by
      intro hnone
      rw [posted, hnone, List.append_nil]
      exact ⟨hincreasing, fun r hr => (hmade r hr).trans_le hlength⟩
    generalize w.exchange.pumping id = p, w'.exchange.pumping id = p' at hchannel
    cases hchannel with
    | idle hloop | served r reply signal hloop =>
      exact hkeep (log_of_same (x := ⟨w, mover, w'⟩) hloop).1
    | posted l r hl hl' hr hcells =>
      have hnew : (⟨w, mover, w'⟩ : Transition).posted id = [r] := by
        rw [(log_of_change (x := ⟨w, mover, w'⟩) hl hl').1]
        simp
      have hcells : w'.cells.length = w.cells.length + 1 := hcells
      have hr : r.id = w.cells.length := hr
      rw [posted, hnew]
      refine ⟨?_, ?_⟩
      · rw [List.map_append, List.pairwise_append]
        refine ⟨hincreasing, by simp, ?_⟩
        intro a ha b hb
        obtain ⟨r', hr', rfl⟩ := List.mem_map.mp ha
        obtain rfl : b = r.id := by simpa using hb
        rw [hr]
        exact hmade r' hr'
      · intro r' hr'
        rcases List.mem_append.mp hr' with hr' | hr'
        · exact (hmade r' hr').trans_le hlength
        · obtain rfl := List.mem_singleton.mp hr'
          omega
    | skipped l r requests signal hl hr hl' | taken l r requests signal hl hr hl' =>
      refine hkeep ?_
      rw [(log_of_change (x := ⟨w, mover, w'⟩) hl hl').1, hr]
      simp
    | signalled l signal hl hsignal hl' | consumed l signal hl hsignal hl'
    | locked l signal hl hrequests hl' =>
      refine hkeep ?_
      rw [(log_of_change (x := ⟨w, mover, w'⟩) hl hl').1]
      simp
    | opened l hid hnext hl => exact hkeep (log_of_none (x := ⟨w, mover, w'⟩) (Or.inl hl)).1
    | closed l signal locked hl hl' =>
      exact hkeep (log_of_none (x := ⟨w, mover, w'⟩) (Or.inr hl')).1

end Runs

end ScriptHost.Service
