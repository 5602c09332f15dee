import ScriptHost.Proofs.FrameMoves
import ScriptHost.Proofs.LoopClosing

/-!
Frames of message loops. A loop is opened together with its frame, and it is closed
together with it if the frame is innermost then. So as long as no loop is closed
underneath another frame, and no other thread pops the frame of a loop, the frames of
loops on the stack are those of the registered loops, innermost first; the first step of
either kind breaks that. While it holds no execution doubts its frame for good.
-/

namespace ScriptHost

namespace Nest

variable {n n' : Nest} {i : Nat}

/-- The frames on the stack that are made for loops, innermost first. -/
def loopStack (n : Nest) : List Nat :=
  n.stack.filter fun i => (n.frame i).kind.isLoop

theorem mem_loopStack : i ∈ n.loopStack ↔ i ∈ n.stack ∧ (n.frame i).kind.isLoop = true := by
  simp [loopStack]

theorem Alike.loopStack_eq (h : n.Alike n') : n'.loopStack = n.loopStack := by
  simp only [loopStack, h.stack, h.kind]

theorem Standing.loopStack_push (hs : n.Standing) (kind : FrameKind) :
    (n.push kind).2.loopStack =
      if kind.isLoop then n.frames.length :: n.loopStack else n.loopStack := by
  have hold : n.stack.filter (fun i => ((n.push kind).2.frame i).kind.isLoop) = n.loopStack := by
    refine List.filter_congr fun i hi => ?_
    rw [frame_push_of_lt kind (hs.stack_made i hi)]
  rw [loopStack, stack_push, List.filter_cons, isLoop_push_new, hold]

theorem loopStack_of_pop (h : n.pop = .ok (i, n')) :
    n.loopStack = if (n.frame i).kind.isLoop then i :: n'.loopStack else n'.loopStack := by
  have hkinds : n'.stack.filter (fun j => (n.frame j).kind.isLoop) = n'.loopStack := by
    refine List.filter_congr fun j _ => ?_
    rw [(frame_of_pop h j).1]
  rw [loopStack, stack_of_pop h, List.filter_cons, hkinds]

/-- If the frame is on the stack, no frame of a loop stands above it. -/
def Seats (n : Nest) (i : Nat) : Prop :=
  i ∈ n.stack → n.loopStack.head? = some i

theorem Seats.of_alike (h : n.Seats i) (ha : n.Alike n') : n'.Seats i := by
  rw [Seats, ha.stack, ha.loopStack_eq]
  exact h

theorem Seats.push (h : n.Seats i) (hs : n.Standing) (hmade : i < n.frames.length)
    {kind : FrameKind} (hkind : kind.isLoop = false) : (n.push kind).2.Seats i := by
  intro hmem
  rw [hs.loopStack_push, hkind, if_neg Bool.false_ne_true]
  rw [stack_push, List.mem_cons] at hmem
  exact h (hmem.resolve_left hmade.ne)

theorem Seats.pop (h : n.Seats i) (hs : n.Standing) {j : Nat} (hpop : n.pop = .ok (j, n')) :
    n'.Seats i := by
  intro hmem
  have hstack := stack_of_pop hpop
  have hhead := h (hstack ▸ List.mem_cons_of_mem j hmem)
  rw [loopStack_of_pop hpop] at hhead
  split at hhead
  · obtain rfl := Option.some.inj hhead
    have hnodup := hs.stack_nodup
    rw [hstack, List.nodup_cons] at hnodup
    exact absurd hmem hnodup.1
  · exact hhead

theorem Seats.popTop (h : n.Seats i) (hs : n.Standing) : n.popTop.Seats i := by
  rcases n.popTop_spec with hpop | ⟨hsame, -⟩
  · exact h.pop hs hpop
  · rwa [hsame]

theorem head_stack (n : Nest) : n.stack.head? = some n.top := by
  unfold stack top
  cases n.above <;> rfl

theorem seats_top (h : (n.frame n.top).kind.isLoop = true) : n.Seats n.top := by
  intro _
  have hhead := n.head_stack
  unfold loopStack
  cases hstack : n.stack with
  | nil => simp [hstack] at hhead
  | cons i stack =>
    rw [hstack, List.head?_cons, Option.some.injEq] at hhead
    rw [List.filter_cons_of_pos (by rwa [hhead]), hhead]
    rfl

/-- Frames keep their kind, and one that is popped stays popped. -/
structure Keeps (n n' : Nest) : Prop where
  made : n.frames.length ≤ n'.frames.length
  kind : ∀ i < n.frames.length, (n'.frame i).kind = (n.frame i).kind
  popped : ∀ i < n.frames.length, (n.frame i).isPopped = true → (n'.frame i).isPopped = true

theorem Standing.keeps (hs : n.Standing) (h : n.Change n') : n.Keeps n' := by
  cases h with
  | served ha =>
    exact ⟨ha.length.ge, fun i _ => ha.kind i, fun i _ hi => (ha.isPopped i).trans hi⟩
  | pushed kind =>
    refine ⟨by simp, fun i hi => ?_, fun i hi hpopped => ?_⟩
    · rw [frame_push_of_lt kind hi]
    · rwa [frame_push_of_lt kind hi]
  | @popped j _ hpop =>
    refine ⟨(length_of_pop hpop).ge, fun i _ => (frame_of_pop hpop i).1, fun i _ hpopped => ?_⟩
    by_cases hij : i = j
    · rw [hij, Frame.isPopped, hs.queue_of_pop hpop]
      rfl
    · rwa [frame_of_pop_ne hpop hij]

theorem made_of_isLoop (h : (n.frame i).kind.isLoop = true) : i < n.frames.length := by
  by_contra hi
  rw [frame_of_not_made (Nat.le_of_not_lt hi)] at h
  cases h

theorem made_of_isPopped (h : (n.frame i).isPopped = true) : i < n.frames.length := by
  by_contra hi
  rw [frame_of_not_made (Nat.le_of_not_lt hi)] at h
  cases h

end Nest

namespace Service

/-- The frames of loops on the stack are those of the registered loops, in the same order. -/
def World.Matched (w : World) : Prop :=
  w.nest.loopStack = w.loops.map MessageLoop.frame

/-- A loop is closed while its frame is not innermost, so that the frame stays. -/
def Transition.Strands (x : Transition) : Prop :=
  ∃ l ∈ x.before.loops, (∀ l' ∈ x.after.loops, l'.id ≠ l.id) ∧ l.frame ≠ x.before.nest.top

/-- The frame of a loop is popped and the loop stays. -/
def Transition.Unseats (x : Transition) : Prop :=
  ∃ l ∈ x.after.loops, x.before.nest.above = l.frame :: x.after.nest.above

section Steps

variable {w w' : World} {mover : Option Nat} {past : List Transition}

theorem loop_frame_eq (w : World) : w.loops.map MessageLoop.frame = w.loopFrames.map Prod.snd := by
  simp [World.loopFrames, Function.comp_def]

/-- Loops that keep their names and frames are found again. -/
theorem exists_loop (h : w'.loopFrames = w.loopFrames) {l : MessageLoop} (hl : l ∈ w.loops) :
    ∃ l' ∈ w'.loops, l'.id = l.id ∧ l'.frame = l.frame := by
  have hmem : (l.id, l.frame) ∈ w'.loopFrames := h ▸ List.mem_map_of_mem hl
  obtain ⟨l', hl', heq⟩ := List.mem_map.mp hmem
  exact ⟨l', hl', congrArg Prod.fst heq, congrArg Prod.snd heq⟩

theorem not_strands_of_same (h : w'.loopFrames = w.loopFrames) :
    ¬Transition.Strands ⟨w, mover, w'⟩ := by
  rintro ⟨l, hl, hgone, -⟩
  obtain ⟨l', hl', hid, -⟩ := exists_loop h hl
  exact hgone l' hl' hid

theorem not_unseats_of_le (h : w.nest.above.length ≤ w'.nest.above.length) :
    ¬Transition.Unseats ⟨w, mover, w'⟩ := by
  rintro ⟨l, -, habove⟩
  have hlength := congrArg List.length habove
  simp only [List.length_cons] at hlength
  omega

theorem World.Matched.isLoop (hm : w.Matched) {l : MessageLoop} (hl : l ∈ w.loops) :
    l.frame ∈ w.nest.stack ∧ (w.nest.frame l.frame).kind.isLoop = true := by
  refine Nest.mem_loopStack.mp ?_
  rw [hm]
  exact List.mem_map_of_mem hl

/-- No two loops share a frame. -/
theorem World.Matched.frames_nodup (hm : w.Matched) (hs : w.nest.Standing) :
    (w.loops.map MessageLoop.frame).Nodup :=
  hm ▸ hs.stack_nodup.sublist List.filter_sublist

/-- A step that leaves the loops and the frames of loops on the stack. -/
theorem matched_iff_of_same (hm : w.Matched) (hloops : w'.loopFrames = w.loopFrames)
    (hstack : w'.nest.loopStack = w.nest.loopStack) (hseated : ¬Transition.Unseats ⟨w, mover, w'⟩) :
    w'.Matched ↔ ¬Transition.Strands ⟨w, mover, w'⟩ ∧ ¬Transition.Unseats ⟨w, mover, w'⟩ := by
  refine iff_of_true ?_ ⟨not_strands_of_same hloops, hseated⟩
  rw [World.Matched, hstack, hm, loop_frame_eq, loop_frame_eq, hloops]

theorem matched_iff_of_alike (hm : w.Matched) (hloops : w'.loopFrames = w.loopFrames)
    (ha : w.nest.Alike w'.nest) :
    w'.Matched ↔ ¬Transition.Strands ⟨w, mover, w'⟩ ∧ ¬Transition.Unseats ⟨w, mover, w'⟩ :=
  matched_iff_of_same hm hloops ha.loopStack_eq (not_unseats_of_le (by rw [ha.above]))

/-- A frame is popped and the loops stay: the frame must not be that of a loop. -/
theorem matched_iff_of_pop (hm : w.Matched) (hloops : w'.loopFrames = w.loopFrames) {frame : Nat}
    (hpop : w.nest.pop = .ok (frame, w'.nest)) :
    w'.Matched ↔ ¬Transition.Strands ⟨w, mover, w'⟩ ∧ ¬Transition.Unseats ⟨w, mover, w'⟩ := by
  have habove := (Nest.pop_spec hpop).1
  have hstack := Nest.loopStack_of_pop hpop
  by_cases hloop : (w.nest.frame frame).kind.isLoop = true
  · rw [if_pos hloop] at hstack
    have hframes : frame :: w'.nest.loopStack = w'.loops.map MessageLoop.frame := by
      rw [← hstack, hm, loop_frame_eq, loop_frame_eq, hloops]
    refine iff_of_false ?_ fun hnot => hnot.2 ?_
    · intro hm'
      rw [← hm'] at hframes
      exact List.cons_ne_self _ _ hframes
    · obtain ⟨l, hl, hframe⟩ := List.mem_map.mp (hframes ▸ List.mem_cons_self)
      exact ⟨l, hl, hframe ▸ habove⟩
  · rw [if_neg hloop] at hstack
    refine matched_iff_of_same hm hloops hstack.symm ?_
    rintro ⟨l, hl, hseat⟩
    obtain ⟨l', hl', -, hframe⟩ := exists_loop hloops.symm hl
    rw [habove] at hseat
    rw [(List.cons.inj hseat).1, ← hframe] at hloop
    exact hloop (hm.isLoop hl').2

/-- A loop is opened on a frame of its own. -/
theorem matched_iff_of_open (hm : w.Matched) (hs : w.nest.Standing) {kind : LoopKind} {id : Nat}
    (hnest : w'.nest = (w.nest.push kind.frameKind).2)
    (hloops : w'.loopFrames = (id, w.nest.frames.length) :: w.loopFrames) :
    w'.Matched ↔ ¬Transition.Strands ⟨w, mover, w'⟩ ∧ ¬Transition.Unseats ⟨w, mover, w'⟩ := by
  have hkind : kind.frameKind.isLoop = true := by cases kind <;> rfl
  refine iff_of_true ?_ ⟨?_, ?_⟩
  · rw [World.Matched, hnest, hs.loopStack_push, if_pos hkind, hm, loop_frame_eq, loop_frame_eq,
      hloops]
    rfl
  · rintro ⟨l, hl, hgone, -⟩
    have hmem : (l.id, l.frame) ∈ w'.loopFrames := by
      rw [hloops]
      exact List.mem_cons_of_mem _ (List.mem_map_of_mem hl)
    obtain ⟨l', hl', heq⟩ := List.mem_map.mp hmem
    exact hgone l' hl' (congrArg Prod.fst heq)
  · refine not_unseats_of_le ?_
    rw [hnest]
    simp [Nest.push]

/-- The loops that are left when one is closed. -/
theorem mem_loops_of_close {l l' : MessageLoop}
    (hloops : w'.loopFrames = w.loopFrames.filter (·.1 != l.id)) (hl' : l' ∈ w'.loops) :
    l'.id ≠ l.id ∧ ∃ l₀ ∈ w.loops, l₀.id = l'.id ∧ l₀.frame = l'.frame := by
  have hmem : (l'.id, l'.frame) ∈ w'.loopFrames := List.mem_map_of_mem hl'
  rw [hloops] at hmem
  obtain ⟨hmem, hid⟩ := List.mem_filter.mp hmem
  obtain ⟨l₀, hl₀, heq⟩ := List.mem_map.mp hmem
  exact ⟨by simpa using hid, l₀, hl₀, congrArg Prod.fst heq, congrArg Prod.snd heq⟩

/-- A loop that is closed takes no other loop's frame away, if no frame of a loop stands above its
own. -/
theorem not_unseats_of_close (hm : w.Matched) (hs : w.nest.Standing) {l : MessageLoop}
    (hl : l ∈ w.loops) (hseats : w.nest.Seats l.frame) (hnest : w'.nest = w.nest.popTop)
    (hloops : w'.loopFrames = w.loopFrames.filter (·.1 != l.id)) :
    ¬Transition.Unseats ⟨w, mover, w'⟩ := by
  rcases w.nest.popTop_spec with hpop | ⟨hsame, -⟩
  · rintro ⟨l', hl', hseat⟩
    obtain ⟨hne, l₀, hl₀, hid, hframe⟩ := mem_loops_of_close hloops hl'
    rw [(Nest.pop_spec hpop).1] at hseat
    have htop : w.nest.top = l₀.frame := (List.cons.inj hseat).1.trans hframe.symm
    have hhead := hseats (hm.isLoop hl).1
    rw [Nest.seats_top (htop ▸ (hm.isLoop hl₀).2) (htop ▸ (hm.isLoop hl₀).1), htop,
      Option.some.injEq] at hhead
    rw [List.inj_on_of_nodup_map (hm.frames_nodup hs) hl₀ hl hhead] at hid
    exact hne hid.symm
  · exact not_unseats_of_le (by rw [hnest, hsame])

/-- When loops match their frames, the loop on the innermost frame is the innermost loop, and the
frame is popped with it. -/
theorem closed_on_top (hm : w.Matched) (hs : w.nest.Standing)
    (hbase : (w.nest.frame 0).kind.isLoop = false)
    (hnodup : (w.loops.map MessageLoop.id).Nodup) {l : MessageLoop} (hl : l ∈ w.loops)
    (htop : l.frame = w.nest.top) :
    w.nest.pop = .ok (l.frame, w.nest.popTop) ∧
      w.loopFrames.filter (·.1 != l.id) = w.loopFrames.tail ∧
      w.nest.loopStack = l.frame :: w.nest.popTop.loopStack := by
  have hisLoop := (hm.isLoop hl).2
  have hpop : w.nest.pop = .ok (l.frame, w.nest.popTop) := by
    rw [htop]
    refine w.nest.popTop_spec.resolve_right ?_
    rintro ⟨-, hempty⟩
    rw [htop, Nest.top, hempty] at hisLoop
    exact absurd (hbase.symm.trans hisLoop) (by simp)
  have hstack := Nest.loopStack_of_pop hpop
  rw [if_pos hisLoop] at hstack
  refine ⟨hpop, ?_, hstack⟩
  obtain ⟨inner, outer, hsplit⟩ := List.append_of_mem hl
  have hframes : l.frame :: w.nest.popTop.loopStack =
      inner.map MessageLoop.frame ++ l.frame :: outer.map MessageLoop.frame := by
    rw [← hstack, hm, hsplit, List.map_append, List.map_cons]
  have hinner : inner = [] := by
    cases inner with
    | nil => rfl
    | cons l' inner =>
      have hnodup' := hm.frames_nodup hs
      rw [hsplit, List.map_append, List.map_cons, List.map_cons, List.cons_append,
        List.nodup_cons] at hnodup'
      rw [List.map_cons, List.cons_append] at hframes
      rw [← (List.cons.inj hframes).1] at hnodup'
      exact absurd (List.mem_append_right _ List.mem_cons_self) hnodup'.1
  rw [hinner, List.nil_append] at hsplit
  rw [hsplit, List.map_cons, List.nodup_cons] at hnodup
  simp only [World.loopFrames, hsplit, List.map_cons, List.tail_cons]
  rw [List.filter_cons_of_neg (by simp), List.filter_eq_self]
  intro p hp
  obtain ⟨l', hl', rfl⟩ := List.mem_map.mp hp
  simp only [bne_iff_ne]
  exact fun hid => hnodup.1 (hid ▸ List.mem_map_of_mem hl')

/-- A loop is closed and its frame stays. -/
theorem not_matched_of_stays (hm : w.Matched) (hs : w.nest.Standing) {l : MessageLoop}
    (hl : l ∈ w.loops) (hstays : l.frame ∈ w'.nest.loopStack)
    (hloops : w'.loopFrames = w.loopFrames.filter (·.1 != l.id)) : ¬w'.Matched := by
  intro hm'
  rw [hm'] at hstays
  obtain ⟨l', hl', hframe⟩ := List.mem_map.mp hstays
  obtain ⟨hne, l₀, hl₀, hid, hframe₀⟩ := mem_loops_of_close hloops hl'
  rw [List.inj_on_of_nodup_map (hm.frames_nodup hs) hl₀ hl (hframe₀.trans hframe)] at hid
  exact hne hid.symm

/-- A loop whose frame is not innermost is closed. Another frame may be popped instead. -/
theorem matched_iff_of_covered (hm : w.Matched) (hs : w.nest.Standing) {l : MessageLoop}
    (hl : l ∈ w.loops) (htop : w.nest.top ≠ l.frame)
    (hnest : w'.nest = w.nest ∨ w'.nest = w.nest.popTop)
    (hloops : w'.loopFrames = w.loopFrames.filter (·.1 != l.id)) :
    w'.Matched ↔ ¬Transition.Strands ⟨w, mover, w'⟩ ∧ ¬Transition.Unseats ⟨w, mover, w'⟩ := by
  have hmem : l.frame ∈ w.nest.loopStack := hm ▸ List.mem_map_of_mem hl
  have hstays : l.frame ∈ w'.nest.loopStack := by
    rcases hnest with hsame | hpopped
    · rwa [hsame]
    rw [hpopped]
    rcases w.nest.popTop_spec with hpop | ⟨hsame, -⟩
    · rw [Nest.loopStack_of_pop hpop] at hmem
      split at hmem
      · exact (List.mem_cons.mp hmem).resolve_left htop.symm
      · exact hmem
    · rwa [hsame]
  refine iff_of_false (not_matched_of_stays hm hs hl hstays hloops) fun hnot => ?_
  exact hnot.1 ⟨l, hl, fun l' hl' => (mem_loops_of_close hloops hl').1, htop.symm⟩

/-- A loop is closed whose thread found its frame innermost: the frame has to be innermost
still. -/
theorem matched_iff_of_close (hm : w.Matched) (hs : w.nest.Standing)
    (hbase : (w.nest.frame 0).kind.isLoop = false)
    (hnodup : (w.loops.map MessageLoop.id).Nodup) {l : MessageLoop} (hl : l ∈ w.loops)
    (hseats : w.nest.Seats l.frame) (hnest : w'.nest = w.nest.popTop)
    (hloops : w'.loopFrames = w.loopFrames.filter (·.1 != l.id)) :
    w'.Matched ↔ ¬Transition.Strands ⟨w, mover, w'⟩ ∧ ¬Transition.Unseats ⟨w, mover, w'⟩ := by
  by_cases htop : l.frame = w.nest.top
  · obtain ⟨hpop, htail, hstack⟩ := closed_on_top hm hs hbase hnodup hl htop
    have hmatched : w'.Matched := by
      have hframes : w.nest.loopStack = w.loopFrames.map Prod.snd := hm.trans (loop_frame_eq w)
      rw [World.Matched, loop_frame_eq, hloops, htail, List.map_tail, ← hframes, hstack, hnest]
      rfl
    refine iff_of_true hmatched ⟨?_, not_unseats_of_close hm hs hl hseats hnest hloops⟩
    rintro ⟨l₀, hl₀, hgone, hne⟩
    by_cases hid : l₀.id = l.id
    · rw [List.inj_on_of_nodup_map hnodup hl₀ hl hid] at hne
      exact hne htop
    · have hmem : (l₀.id, l₀.frame) ∈ w'.loopFrames := by
        rw [hloops]
        exact List.mem_filter.mpr ⟨List.mem_map_of_mem hl₀, by simpa using hid⟩
      obtain ⟨l', hl', heq⟩ := List.mem_map.mp hmem
      exact hgone l' hl' (congrArg Prod.fst heq)
  · exact matched_iff_of_covered hm hs hl (Ne.symm htop) (Or.inr hnest) hloops

end Steps

section Activations

variable {w w' : World} {mover : Option Nat} {past : List Transition}

/-- Every activation after a step was there before, was brought by one that was, or is that of a
thread that was just started. -/
theorem activation_after (h : Run past w) (hstep : Step w mover w') {t' : Thread}
    {b : Activation} (ht' : t' ∈ w'.threads) (hb : b ∈ t'.stack) :
    (∃ t ∈ w.threads, b ∈ t.stack) ∨ (∃ t ∈ w.threads, ∃ a ∈ t.stack, Brought w a w' b) ∨
      b.ordinary = true := by
  obtain ⟨k, hk⟩ := List.mem_iff_getElem?.mp ht'
  cases thread_after hstep hk with
  | same ht => exact Or.inl ⟨t', List.mem_of_getElem? ht, hb⟩
  | @moved t m ht hm heq hw' =>
    obtain ⟨a, rest, hs, hmoved⟩ := moved_of_moves (typed_of_run h ht) hm
    have hmem := List.mem_of_getElem? ht
    rcases hmoved.brought b (heq ▸ hb) with hrest | hbrought
    · exact Or.inl ⟨t, hmem, by rw [hs]; exact List.mem_cons_of_mem a hrest⟩
    · refine Or.inr (Or.inl ⟨t, hmem, a, by simp [hs], ?_⟩)
      rw [hw']
      exact ⟨hbrought.room, hbrought.doubts, hbrought.pops⟩
  | started hnewly hk =>
    refine Or.inr (Or.inr ?_)
    cases hnewly with
    | called hentry => cases hentry <;> exact List.mem_singleton.mp hb ▸ rfl
    | reader | worker => exact List.mem_singleton.mp hb ▸ rfl
  | dropped ht hgo hs hs' hc' | returned ht hs hc hs' hc' =>
    rw [hs'] at hb
    cases hb

theorem keeps_of_step (h : Run past w) (hstep : Step w mover w') : w.nest.Keeps w'.nest :=
  (standing_of_run h).keeps (change_of_step h hstep)

/-- The frames that are no loop's: the base frame, and those pushed for a single order. -/
structure World.Roomed (w : World) : Prop where
  base : 0 < w.nest.frames.length ∧ (w.nest.frame 0).kind.isLoop = false
  rooms : ∀ t ∈ w.threads, ∀ a ∈ t.stack, ∀ frame, a.room? = some frame →
    frame < w.nest.frames.length ∧ (w.nest.frame frame).kind.isLoop = false

theorem roomed_of_run (h : Run past w) : w.Roomed := by
  induction h with
  | start hactive hpeak h =>
    have hfresh := fresh_of_start h
    refine ⟨?_, by simp [hfresh.threads]⟩
    rw [hfresh.nest]
    exact ⟨Nat.one_pos, rfl⟩
  | @step past w w' mover h hstep ih =>
    have hkeeps := keeps_of_step h hstep
    have hkept : ∀ i, i < w.nest.frames.length ∧ (w.nest.frame i).kind.isLoop = false →
        i < w'.nest.frames.length ∧ (w'.nest.frame i).kind.isLoop = false := by
      rintro i ⟨hmade, hkind⟩
      rw [hkeeps.kind i hmade]
      exact ⟨hmade.trans_le hkeeps.made, hkind⟩
    refine ⟨hkept 0 ih.base, ?_⟩
    intro t' ht' b hb frame hroom
    rcases activation_after h hstep ht' hb with ⟨t, ht, hb⟩ | ⟨t, ht, a, ha, hbrought⟩ | hplain
    · exact hkept frame (ih.rooms t ht b hb frame hroom)
    · rcases hbrought.room frame hroom with hroom | ⟨rfl, hnest⟩
      · exact hkept frame (ih.rooms t ht a ha frame hroom)
      · rw [hnest, Nest.isLoop_push_new]
        exact ⟨by simp, rfl⟩
    · rw [room_of_ordinary hplain] at hroom
      cases hroom

end Activations

section Openings

variable {w w' : World} {k : Nat} {t : Thread} {rest : List Activation} {m : World × Thread}
  {mover : Option Nat} {past : List Transition}

/-- What an invocation receives, or is unwound by, opens no loop. -/
theorem go_of_opened {i : Invocation} (hturn : Turn w k t (.invocation i) rest m)
    (hloops : m.1.loopFrames ≠ w.loopFrames) : t.control = .go := by
  cases hturn with
  | goes hgo => exact hgo
  | receives o hback h => cases h <;> exact absurd rfl hloops
  | unwinds p hunwind h => cases h <;> exact absurd rfl hloops

/-- No loop is opened while a thread holds the list of loops. -/
theorem not_held_of_opened (h : Run past w) (hstep : Step w (some k) w') {p : Nat × Nat}
    (hopened : w'.loopFrames = p :: w.loopFrames) : w.loopsHeld = false := by
  have hloops : w'.loopFrames ≠ w.loopFrames := hopened ▸ List.cons_ne_self _ _
  cases hstep with
  | move hfree hmove =>
    obtain ⟨t, ht, m, hm, rfl⟩ := mem_next.mp hmove
    obtain ⟨a, rest, hs, hmoved⟩ := moved_of_moves (typed_of_run h ht) hm
    by_contra hheld
    have hidle := not_usesLoops_of_free hfree ht (Bool.eq_true_of_not_eq_false hheld)
    have hlength := congrArg List.length hopened
    cases hmoved.board with
    | opened kind hnest hloops' hslot hduties hopens =>
      obtain ⟨i, rfl, huses⟩ := hopens
      have hgo := go_of_opened (turn_of_stack hm hs) hloops
      rw [Thread.usesLoops, hgo, hs] at hidle
      exact absurd (hidle.symm.trans huses) Bool.false_ne_true
    | unregistered l signal ha hl htop hnest hloops' | closed l signal ha hl hnest hloops' =>
      have hle := List.length_filter_le (·.1 != l.id) w.loopFrames
      have hlength' := congrArg List.length hloops'
      simp only [List.length_cons] at hlength
      change m.1.loopFrames.length = _ at hlength
      omega
    | served hnest hloops' | slotted ha hnest hloops' | marked token frame invoker ha hnest hloops'
    | pushed kind hkind hnest hloops' | covered frame ha htop hnest hloops'
    | left frame ha hnest hloops' | popped reason frame ha hpop hloops' =>
      exact hloops hloops'

/-- A thread that is about to pop the frame of a loop holds the list of loops. -/
theorem held_of_popping (h : Run past w) (ht : t ∈ w.threads) {id : Nat} {signal : Signal}
    (hmem : .loop id (.popping signal) ∈ t.stack) : w.loopsHeld = true := by
  obtain ⟨k, hk⟩ := List.mem_iff_getElem?.mp ht
  obtain ⟨above, hp⟩ := pumping_of_thread hk hmem rfl
  cases hl : w.exchange.findLoop id with
  | none =>
    rw [(pumping_of_run h id).2 hl] at hp
    exact absurd hp (Multiset.notMem_zero _)
  | some l =>
    exact List.any_eq_true.mpr ⟨l, List.mem_of_find?_eq_some hl, (locked_of_run h hl hp).1⟩

/-- The frames of registered loops are loops'. -/
theorem isLoop_of_run (h : Run past w) :
    ∀ p ∈ w.loopFrames, (w.nest.frame p.2).kind.isLoop = true := by
  induction h with
  | start hactive hpeak h => simp [World.loopFrames, (fresh_of_start h).loops]
  | @step past w w' mover h hstep ih =>
    have hkeeps := keeps_of_step h hstep
    have hkept : ∀ p ∈ w.loopFrames, (w'.nest.frame p.2).kind.isLoop = true := fun p hp => by
      rw [hkeeps.kind _ (Nest.made_of_isLoop (ih p hp))]
      exact ih p hp
    intro p hp
    cases mover with
    | none =>
      rw [(disturbed_of_step hstep).2] at hp
      exact hkept p hp
    | some k =>
      obtain ⟨t, a, rest, m, -, -, -, rfl, hmoved⟩ := moved_of_step h hstep
      cases hmoved.board with
      | served hnest hloops | slotted ha hnest hloops | marked token frame invoker ha hnest hloops
      | pushed kind hkind hnest hloops | covered frame ha htop hnest hloops
      | left frame ha hnest hloops | popped reason frame ha hpop hloops =>
        exact hkept p (hloops ▸ hp)
      | opened kind hnest hloops =>
        rcases List.mem_cons.mp (hloops ▸ hp) with rfl | hp
        · have hkind : kind.frameKind.isLoop = true := by cases kind <;> rfl
          change (m.1.nest.frame w.nest.frames.length).kind.isLoop = true
          rw [hnest, Nest.isLoop_push_new, hkind]
        · exact hkept p hp
      | unregistered l signal ha hl htop hnest hloops | closed l signal ha hl hnest hloops =>
        exact hkept p (List.mem_filter.mp (hloops ▸ hp)).1

end Openings

section Runs

variable {w w' : World} {mover : Option Nat} {past : List Transition}

theorem matched_of_fresh (h : w.Fresh) : w.Matched := by
  rw [World.Matched, h.nest, h.loops]
  rfl

/-- No frame of a loop stands above that of a loop that is about to pop it. -/
def World.Seated (w : World) : Prop :=
  ∀ t ∈ w.threads, ∀ id signal, .loop id (.popping signal) ∈ t.stack →
    ∀ frame, (id, frame) ∈ w.loopFrames → w.nest.Seats frame

/-- A thread that keeps the list of loops held stays on the innermost frame of a loop. -/
theorem seats_of_step (h : Run past w) (hstep : Step w mover w')
    (hclient : mover = none → w'.nest.above = w.nest.above) (hheld : w.loopsHeld = true)
    {id frame : Nat} (hmem : (id, frame) ∈ w'.loopFrames)
    (hseats : (id, frame) ∈ w.loopFrames → w.nest.Seats frame) : w'.nest.Seats frame := by
  have hs := standing_of_run h
  cases mover with
  | none =>
    obtain ⟨hdisturbed, hloops⟩ := disturbed_of_step hstep
    have habove := hclient rfl
    have hseats := hseats (hloops ▸ hmem)
    cases hdisturbed with
    | served hnest => exact hseats.of_alike hnest.alike
    | pushed kind hnest =>
      rw [hnest] at habove
      exact absurd habove (List.cons_ne_self _ _)
    | popped frame hpop => exact hseats.pop hs hpop
    | withdrew k ticket id t o ht hstack hnest => exact hnest ▸ hseats
  | some k =>
    obtain ⟨t, a, rest, m, -, -, -, rfl, hmoved⟩ := moved_of_step h hstep
    cases hmoved.board with
    | served hnest hloops => exact (hseats (hloops ▸ hmem)).of_alike hnest.alike
    | marked token frame invoker ha hnest hloops =>
      exact (hseats (hloops ▸ hmem)).of_alike (hnest ▸ w.nest.alike_setReading _ _)
    | slotted ha hnest hloops | covered frame ha htop hnest hloops =>
      exact hnest ▸ hseats (hloops ▸ hmem)
    | pushed kind hkind hnest hloops =>
      have hmem : (id, frame) ∈ w.loopFrames := hloops ▸ hmem
      have hmade := Nest.made_of_isLoop (isLoop_of_run h _ hmem)
      exact hnest ▸ (hseats hmem).push hs hmade hkind
    | left frame ha hnest hloops => exact hnest ▸ (hseats (hloops ▸ hmem)).popTop hs
    | popped reason frame ha hpop hloops => exact (hseats (hloops ▸ hmem)).pop hs hpop
    | opened kind hnest hloops =>
      exact absurd hheld (by simp [not_held_of_opened h hstep hloops])
    | unregistered l signal ha hl htop hnest hloops =>
      exact hnest ▸ hseats (List.mem_filter.mp (hloops ▸ hmem)).1
    | closed l signal ha hl hnest hloops =>
      exact hnest ▸ (hseats (List.mem_filter.mp (hloops ▸ hmem)).1).popTop hs

theorem seated_of_run (h : Run past w)
    (hclients : ∀ x ∈ past, x.mover = none → x.after.nest.above = x.before.nest.above) :
    w.Seated := by
  induction h with
  | start hactive hpeak h => simp [World.Seated, (fresh_of_start h).threads]
  | @step past w w' mover h hstep ih =>
    have ih := ih fun x hx => hclients x (List.mem_cons_of_mem _ hx)
    have hstays : ∀ t ∈ w.threads, ∀ id signal, .loop id (.popping signal) ∈ t.stack →
        ∀ frame, (id, frame) ∈ w'.loopFrames → w'.nest.Seats frame :=
      fun t ht id signal hpops frame hmem =>
        seats_of_step h hstep (hclients _ List.mem_cons_self) (held_of_popping h ht hpops) hmem
          fun hmem => ih t ht id signal hpops frame hmem
    intro t' ht' id signal hpops frame hmem
    rcases activation_after h hstep ht' hpops with
      ⟨t, ht, hpops⟩ | ⟨t, ht, a, ha, hbrought⟩ | hplain
    · exact hstays t ht id signal hpops frame hmem
    · rcases hbrought.pops id signal rfl with rfl | ⟨l, hl, htop, hnest, hloops⟩
      · exact hstays t ht id signal ha frame hmem
      · have hid : l.id = id := Exchange.findLoop_id (x := w.exchange) hl
        obtain ⟨l', hl', heq⟩ := List.mem_map.mp (hloops ▸ hmem)
        obtain ⟨hid', rfl⟩ := Prod.mk.inj heq
        obtain rfl := List.inj_on_of_nodup_map (orderly_of_run h).sound.loops_nodup
          (List.mem_of_find?_eq_some hl) hl' (hid.trans hid'.symm)
        rw [hnest, ← htop]
        exact Nest.seats_top (htop ▸ isLoop_of_run h _ (List.mem_map_of_mem hl'))
    · cases hplain

/-- A step keeps loops and frames matched exactly if it neither strands a frame nor unseats a
loop. Clients who push and pop frames themselves are left out. -/
theorem matched_iff_of_step (h : Run past w) (hstep : Step w mover w')
    (hclient : mover = none → w'.nest.above = w.nest.above) (hseated : w.Seated)
    (hm : w.Matched) :
    w'.Matched ↔ ¬Transition.Strands ⟨w, mover, w'⟩ ∧ ¬Transition.Unseats ⟨w, mover, w'⟩ := by
  have hs := standing_of_run h
  have hroomed := roomed_of_run h
  cases mover with
  | none =>
    obtain ⟨hdisturbed, hloops⟩ := disturbed_of_step hstep
    have habove := hclient rfl
    cases hdisturbed with
    | served hnest => exact matched_iff_of_alike hm hloops hnest.alike
    | pushed kind hnest =>
      rw [hnest] at habove
      exact absurd habove (List.cons_ne_self _ _)
    | popped frame hpop =>
      rw [(Nest.pop_spec hpop).1] at habove
      exact absurd habove.symm (List.cons_ne_self _ _)
    | withdrew k ticket id t o ht hs hnest =>
      exact matched_iff_of_alike hm hloops (hnest ▸ .refl _)
  | some k =>
    obtain ⟨t, a, rest, m, ht, hstack, -, rfl, hmoved⟩ := moved_of_step h hstep
    cases hmoved.board with
    | served hnest hloops => exact matched_iff_of_alike hm hloops hnest.alike
    | slotted ha hnest hloops | covered frame ha htop hnest hloops =>
      exact matched_iff_of_alike hm hloops (hnest ▸ .refl _)
    | marked token frame invoker ha hnest hloops =>
      exact matched_iff_of_alike hm hloops (hnest ▸ w.nest.alike_setReading _ _)
    | pushed kind hkind hnest hloops =>
      refine matched_iff_of_same hm hloops ?_ (not_unseats_of_le ?_)
      · simp only [hnest, hs.loopStack_push, hkind, Bool.false_eq_true, if_false]
      · simp [hnest, Nest.push]
    | left frame ha hnest hloops =>
      rcases w.nest.popTop_spec with hpop | ⟨hsame, -⟩
      · exact matched_iff_of_pop hm hloops (hnest ▸ hpop)
      · exact matched_iff_of_alike hm hloops (hnest.trans hsame ▸ .refl _)
    | popped reason frame ha hpop hloops => exact matched_iff_of_pop hm hloops hpop
    | opened kind hnest hloops => exact matched_iff_of_open hm hs hnest hloops
    | unregistered l signal ha hl htop hnest hloops =>
      exact matched_iff_of_covered hm hs hl htop (Or.inl hnest) hloops
    | closed l signal ha hl hnest hloops =>
      have hseats := hseated t (List.mem_of_getElem? ht) l.id signal (by simp [hstack, ha]) l.frame
        (List.mem_map_of_mem hl)
      exact matched_iff_of_close hm hs hroomed.base.2 (orderly_of_run h).sound.loops_nodup hl
        hseats hnest hloops

/-- The activations that can unseat a loop: one that pops a runspace, and one that leaves a frame of
its own which is no longer innermost. -/
inductive Unseater (w : World) : Activation → Prop
  | runspace (reason : Option RunspaceChangeReason) :
      Unseater w (.popRunspace reason .poppingFrame)
  | room {a : Activation} {frame : Nat} (ha : a.popsRoom? = some frame)
      (htop : w.nest.top ≠ frame) : Unseater w a

theorem room_of_popsRoom {a : Activation} {frame : Nat} (h : a.popsRoom? = some frame) :
    a.room? = some frame := by
  unfold Activation.popsRoom? at h
  split at h
  · exact h
  · exact h
  · cases h

/-- Only a thread that pops the innermost frame in place of another one can unseat a loop. -/
theorem mover_of_unseats (h : Run past w) (hstep : Step w mover w')
    (hclient : mover = none → w'.nest.above = w.nest.above) (hseated : w.Seated) (hm : w.Matched)
    (hunseats : Transition.Unseats ⟨w, mover, w'⟩) :
    ∃ k t a rest, mover = some k ∧ w.threads[k]? = some t ∧ t.stack = a :: rest ∧
      Unseater w a := by
  cases mover with
  | none => exact absurd hunseats (not_unseats_of_le (by rw [hclient rfl]))
  | some k =>
    obtain ⟨t, a, rest, m, ht, hstack, -, rfl, hmoved⟩ := moved_of_step h hstep
    cases hmoved.board with
    | served hnest => exact absurd hunseats (not_unseats_of_le (by rw [hnest.alike.above]))
    | slotted ha hnest | covered frame ha htop hnest | unregistered l signal ha hl htop hnest =>
      exact absurd hunseats (not_unseats_of_le (by rw [hnest]))
    | marked token frame invoker ha hnest =>
      exact absurd hunseats (not_unseats_of_le (by rw [hnest]; rfl))
    | pushed kind hkind hnest | opened kind hnest =>
      exact absurd hunseats (not_unseats_of_le (by simp [hnest, Nest.push]))
    | left frame ha hnest hloops =>
      refine ⟨k, t, a, rest, rfl, ht, hstack, .room ha fun htop => ?_⟩
      rcases w.nest.popTop_spec with hpop | ⟨hsame, -⟩
      · obtain ⟨l', hl', hseat⟩ := hunseats
        obtain ⟨l, hl, -, hframe⟩ := exists_loop hloops.symm hl'
        rw [(Nest.pop_spec hpop).1] at hseat
        have hroom := ((roomed_of_run h).rooms t (List.mem_of_getElem? ht) a (by simp [hstack])
          frame (room_of_popsRoom ha)).2
        rw [← htop, (List.cons.inj hseat).1, ← hframe, (hm.isLoop hl).2] at hroom
        cases hroom
      · exact not_unseats_of_le (by rw [hnest, hsame]) hunseats
    | popped reason frame ha hpop hloops =>
      exact ⟨k, t, a, rest, rfl, ht, hstack, ha ▸ .runspace reason⟩
    | closed l signal ha hl hnest hloops =>
      have hseats := hseated t (List.mem_of_getElem? ht) l.id signal (by simp [hstack, ha]) l.frame
        (List.mem_map_of_mem hl)
      exact absurd hunseats
        (not_unseats_of_close hm (standing_of_run h) hl hseats hnest hloops)

/-- A loop that is gone after a step was closed in it: its frame was not innermost, or the
innermost frame was popped. -/
theorem closed_of_gone (h : Run past w) (hstep : Step w mover w') {l : MessageLoop}
    (hl : l ∈ w.loops) (hgone : ∀ l' ∈ w'.loops, l'.id ≠ l.id) :
    w.nest.top ≠ l.frame ∨ w'.nest = w.nest.popTop := by
  have hsame : w'.loopFrames ≠ w.loopFrames := by
    intro hloops
    obtain ⟨l', hl', hid, -⟩ := exists_loop hloops hl
    exact hgone l' hl' hid
  cases mover with
  | none => exact absurd (disturbed_of_step hstep).2 hsame
  | some k =>
    obtain ⟨t, a, rest, m, ht, hstack, -, rfl, hmoved⟩ := moved_of_step h hstep
    have hmem : (l.id, l.frame) ∉ m.1.loopFrames := by
      intro hmem
      obtain ⟨l', hl', heq⟩ := List.mem_map.mp hmem
      exact hgone l' hl' (congrArg Prod.fst heq)
    have hclosed : ∀ l₀ ∈ w.loops, m.1.loopFrames = w.loopFrames.filter (·.1 != l₀.id) →
        l = l₀ := by
      intro l₀ hl₀ hloops
      refine List.inj_on_of_nodup_map (orderly_of_run h).sound.loops_nodup hl hl₀ ?_
      by_contra hid
      rw [hloops] at hmem
      exact hmem (List.mem_filter.mpr ⟨List.mem_map_of_mem hl, by simpa using hid⟩)
    cases hmoved.board with
    | served hnest hloops | slotted ha hnest hloops | marked token frame invoker ha hnest hloops
    | pushed kind hkind hnest hloops | covered frame ha htop hnest hloops
    | left frame ha hnest hloops | popped reason frame ha hpop hloops =>
      exact absurd hloops hsame
    | opened kind hnest hloops =>
      rw [hloops] at hmem
      exact absurd (List.mem_cons_of_mem _ (List.mem_map_of_mem hl)) hmem
    | unregistered l₀ signal ha hl₀ htop hnest hloops =>
      exact Or.inl (hclosed l₀ hl₀ hloops ▸ htop)
    | closed l₀ signal ha hl₀ hnest hloops => exact Or.inr hnest

/-- A loop that is closed on the innermost frame takes it off the stack. -/
theorem off_stack_of_closed (h : Run past w) (hstep : Step w mover w') (hm : w.Matched)
    (hstrands : ¬Transition.Strands ⟨w, mover, w'⟩) {l : MessageLoop} (hl : l ∈ w.loops)
    (hgone : ∀ l' ∈ w'.loops, l'.id ≠ l.id) : l.frame ∉ w'.nest.stack := by
  have hs := standing_of_run h
  have htop : l.frame = w.nest.top := by
    by_contra hne
    exact hstrands ⟨l, hl, hgone, hne⟩
  have hpop := (closed_on_top hm hs (roomed_of_run h).base.2
    (orderly_of_run h).sound.loops_nodup hl htop).1
  have hnodup := hs.stack_nodup
  rw [Nest.stack_of_pop hpop, List.nodup_cons] at hnodup
  rw [(closed_of_gone h hstep hl hgone).resolve_left (not_not_intro htop.symm)]
  exact hnodup.1

/-- What an execution that doubts its frame can rely on, as long as loops match frames: the
frame is that of a loop, and once that loop is gone it is popped. -/
def World.Grounded (w : World) : ExecPhase → Prop
  | .checkingOwner h => (w.nest.frame h.frame).kind.isLoop = true
  | .checkingPopped h => (w.nest.frame h.frame).isPopped = true
  | .refusing _ => False
  | _ => True

theorem World.Grounded.keep (hkeeps : w.nest.Keeps w'.nest) {phase : ExecPhase}
    (h : w.Grounded phase) : w'.Grounded phase := by
  unfold World.Grounded at h ⊢
  split at h
  · rwa [hkeeps.kind _ (Nest.made_of_isLoop h)]
  · exact hkeeps.popped _ (Nest.made_of_isPopped h) h
  · exact h
  · exact h

/-- The frame of a loop that is not registered is popped. -/
theorem isPopped_of_unowned (hm : w.Matched) (hs : w.nest.Standing) {frame : Nat}
    (hloop : (w.nest.frame frame).kind.isLoop = true) (howner : w.ownsFrame frame = false) :
    (w.nest.frame frame).isPopped = true := by
  refine (hs.popped_iff frame (Nest.made_of_isLoop hloop)).mpr fun hmem => ?_
  have hmatched := Nest.mem_loopStack.mpr ⟨hmem, hloop⟩
  rw [hm] at hmatched
  obtain ⟨l, hl, hframe⟩ := List.mem_map.mp hmatched
  have hany : w.ownsFrame frame = true := List.any_eq_true.mpr ⟨l, hl, by simpa using hframe⟩
  rw [hany] at howner
  cases howner

theorem grounded_of_run (h : Run past w) (hall : ∀ x ∈ past, x.before.Matched) :
    ∀ t ∈ w.threads, ∀ o phase, .exec o phase ∈ t.stack → w.Grounded phase := by
  induction h with
  | start hactive hpeak h => simp [(fresh_of_start h).threads]
  | @step past w w' mover h hstep ih =>
    have hm : w.Matched := hall _ List.mem_cons_self
    have ih := ih fun x hx => hall x (List.mem_cons_of_mem _ hx)
    have hkeeps := keeps_of_step h hstep
    intro t' ht' o phase hmem
    rcases activation_after h hstep ht' hmem with ⟨t, ht, hmem⟩ | ⟨t, ht, a, ha, hbrought⟩ | hplain
    · exact (ih t ht o phase hmem).keep hkeeps
    · have hdoubts := hbrought.doubts o phase rfl
      cases phase with
      | checkingOwner handle =>
        have hgrounded : w.Grounded (.checkingOwner handle) := hdoubts
        exact hgrounded.keep hkeeps
      | checkingPopped handle =>
        obtain ⟨rfl, howner⟩ := hdoubts
        have hgrounded : w.Grounded (.checkingPopped handle) :=
          isPopped_of_unowned hm (standing_of_run h) (ih t ht o _ ha) howner
        exact hgrounded.keep hkeeps
      | refusing handle =>
        obtain ⟨rfl, hopen⟩ := hdoubts
        have hpopped : w.Grounded (.checkingPopped handle) := ih t ht o _ ha
        exact absurd (hopen.symm.trans hpopped) (by simp)
      | _ => trivial
    · cases phase with
      | checkingOwner | checkingPopped | refusing => cases hplain
      | _ => trivial

theorem matched_before (h : Run past w) (hall : ∀ x ∈ past, x.after.Matched) : w.Matched := by
  cases h with
  | start hactive hpeak h => exact matched_of_fresh (fresh_of_start h)
  | step h hstep => exact hall _ List.mem_cons_self

/-- Loops match their frames all along a run exactly if no step of it strands a frame or unseats
a loop. -/
theorem all_matched_iff (h : Run past w)
    (hclients : ∀ x ∈ past, x.mover = none → x.after.nest.above = x.before.nest.above) :
    (∀ x ∈ past, x.after.Matched) ↔ ∀ x ∈ past, ¬x.Strands ∧ ¬x.Unseats := by
  induction h with
  | start hactive hpeak h => simp
  | @step past w w' mover h hstep ih =>
    have ih := ih fun x hx => hclients x (List.mem_cons_of_mem _ hx)
    have hseated := seated_of_run h fun x hx => hclients x (List.mem_cons_of_mem _ hx)
    have hiff := matched_iff_of_step h hstep (hclients _ List.mem_cons_self) hseated
    rw [List.forall_mem_cons, List.forall_mem_cons, ih]
    refine and_congr_left fun hpast => ?_
    exact hiff (matched_before h (ih.mpr hpast))

/-- Every world that a run with matched loops passes through is matched. -/
theorem matched_of_mem (h : Run past w) (hall : ∀ x ∈ past, x.after.Matched) {x : Transition}
    (hx : x ∈ past) : x.before.Matched := by
  obtain ⟨later, earlier, rfl⟩ := List.append_of_mem hx
  refine matched_before (run_before h).1 fun y hy => hall y ?_
  exact List.mem_append_right later (List.mem_cons_of_mem x hy)

/-- As long as clients do not push and pop frames themselves, the frames of loops on the stack
are those of the registered loops, innermost first, exactly if no loop was closed underneath
another frame and none was left without its frame. The latter is done only by a thread that pops
a runspace, or that leaves a frame of its own, and pops the innermost frame in its place. In such
a run a loop that is closed takes its frame off the stack, and no execution is refused for a
loop's frame without a loop. -/
theorem loop_frames_match_iff (h : Run past w)
    (hclients : ∀ x ∈ past, x.mover = none → x.after.nest.above = x.before.nest.above) :
    ((∀ x ∈ past, x.after.Matched) ↔ ∀ x ∈ past, ¬x.Strands ∧ ¬x.Unseats) ∧
    (∀ x ∈ past, x.before.Matched → x.Unseats → ∃ k t a rest, x.mover = some k ∧
      x.before.threads[k]? = some t ∧ t.stack = a :: rest ∧ Unseater x.before a) ∧
    ((∀ x ∈ past, x.after.Matched) →
      (∀ x ∈ past, ∀ l ∈ x.before.loops, (∀ l' ∈ x.after.loops, l'.id ≠ l.id) →
        l.frame ∉ x.after.nest.stack) ∧
      ∀ t ∈ w.threads, ∀ o handle, .exec o (.refusing handle) ∉ t.stack) := by
  have hiff := all_matched_iff h hclients
  refine ⟨hiff, ?_, fun hall => ⟨?_, ?_⟩⟩
  · intro x hx hm hunseats
    obtain ⟨later, earlier, rfl⟩ := List.append_of_mem hx
    obtain ⟨hbefore, hstep⟩ := run_before h
    have hseated := seated_of_run hbefore fun y hy =>
      hclients y (List.mem_append_right later (List.mem_cons_of_mem x hy))
    exact mover_of_unseats hbefore hstep (hclients x hx) hseated hm hunseats
  · intro x hx l hl hgone
    have hm := matched_of_mem h hall hx
    have hstrands := (hiff.mp hall x hx).1
    obtain ⟨later, earlier, rfl⟩ := List.append_of_mem hx
    obtain ⟨hbefore, hstep⟩ := run_before h
    exact off_stack_of_closed hbefore hstep hm hstrands hl hgone
  · intro t ht o handle hmem
    exact grounded_of_run h (fun x hx => matched_of_mem h hall hx) t ht o _ hmem

instance (w : World) : Decidable w.Matched :=
  inferInstanceAs (Decidable (w.nest.loopStack = w.loops.map MessageLoop.frame))

/-- A debugger is stopped, is resumed, and leaves with its frame. -/
theorem loop_frames_match_iff_resumed : ∃ past w, Run past w ∧
    (∃ x ∈ past, x.before.loops.map MessageLoop.frame = [1] ∧
      x.after.loops.map MessageLoop.id = [] ∧ x.after.nest.stack = [0]) ∧
    (∀ x ∈ past, ¬x.Strands ∧ ¬x.Unseats) ∧
    ∀ t ∈ w.threads, ∀ o handle, .exec o (.refusing handle) ∉ t.stack := by
  have hstart : Run [] _ := @Run.start {} {} _ rfl rfl rfl
  have hstopped := run_of_follow (hstart.step (.call (.execute
    { command := .ofScript "breakpoint", options := {} })))
    (List.replicate 10 0 ++ List.replicate 8 1)
  have hresumed := run_of_follow (hstopped.step (.act (s := .resume .proceed) rfl fun _ => rfl))
    (List.replicate 6 1)
  have hresult := loop_frames_match_iff hresumed (by decide +kernel)
  have hall := hresult.1.mp (by decide +kernel)
  exact ⟨_, _, hresumed, by decide +kernel, hall, (hresult.2.2 (hresult.1.mpr hall)).2⟩

/-- A runspace is pushed while a debugger is stopped. The debugger is resumed and its loop closed,
but the frame of the loop stays on the stack, and once the runspace is popped the next execution
is refused for it. -/
theorem loop_frame_outlives_loop : ∃ past w, Run past w ∧
    (∀ x ∈ past, x.mover = none → x.after.nest.above = x.before.nest.above) ∧
    w.loops.map MessageLoop.frame = [] ∧ w.nest.loopStack = [1] ∧
    ∃ t ∈ w.threads,
      t.control = .back (.reply (.error (.invariantViolation .unownedLoopFrame))) := by
  have hstart : Run [] _ := @Run.start {} {} _ rfl rfl rfl
  have hstopped := run_of_follow (hstart.step (.call (.execute
    { command := .ofScript "breakpoint", options := {} })))
    (List.replicate 10 0 ++ List.replicate 8 1)
  have hpushed := run_of_follow (hstopped.step (.call (.pushRunspace
    { id := 1, location := .computer "far" }))) (List.replicate 4 2)
  have hresumed := run_of_follow (hpushed.step (.act (s := .resume .proceed) rfl fun _ => rfl))
    (List.replicate 36 1 ++ List.replicate 30 0)
  have hrefused := run_of_follow (hresumed.step (.call (.execute
    { command := .ofScript "echo hi", options := {} }))) (List.replicate 12 3)
  refine ⟨_, _, hrefused, by decide +kernel, by decide +kernel, by decide +kernel, ?_⟩
  exact ⟨_, List.mem_of_getElem? (i := 3) rfl, rfl⟩

end Runs

end Service

end ScriptHost
