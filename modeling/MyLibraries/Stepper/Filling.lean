import MyLibraries.Stepper.Queue
import MyLibraries.Stepper.Reads

/-!
# Filling the profile buffers

`stepper_add_task` fills a buffer when its size is greater than the steps of the ramp, and
sets the index of the device back to zero. The interrupts read a buffer in either case, and
the index is set back for one task only before the queue runs.
-/

namespace MyLibraries.Stepper

open Run

/-! ## The calls, with what they write -/

/-- Who has written the elements of the buffers, behind a call that leaves `s'`. -/
def Filling.record (x : Filling) (s' : State) (a : Add) (r : Ramp) (b : Ptr) (i : Nat) :
    Option Ptr :=
  if a.buf = some b ∧ r.steps (s'.tasks a.task) < r.size (s'.bufs b) ∧
      i < (r.steps (s'.tasks a.task)).toNat then
    some a.task
  else
    x.written r b i

/-- A call of `stepper_add_task`; nothing is written for a task that is refused. -/
def fill {δ : Type} (ar : Arith δ) (fuel : Nat) (x : Filling) (a : Add) :
    Option (Stp × Filling) :=
  (a.call ar fuel x.state).map fun (r, s') =>
    (r, if r = 0 then { x with state := s' } else ⟨s', x.record s' a, x.queue ++ [a.task]⟩)

/-- No element has been written, and no task accepted. -/
def Filling.empty (s : State) : Filling := ⟨s, fun _ _ _ => none, []⟩

/-- A task is not added while it is queued. -/
def Fresh (x : Filling) (a : Add) : Prop := a.task ∉ x.queue

instance (x : Filling) (a : Add) : Decidable (Fresh x a) :=
  inferInstanceAs (Decidable (a.task ∉ x.queue))

/-- At most one task of the queue has buffers, and these are greater than its ramps. -/
def Filling.OneBuffered (x : Filling) : Prop :=
  ∀ p ∈ x.queue, ∀ b, (x.state.tasks p).buf = some b →
    (∀ r : Ramp, r.steps (x.state.tasks p) < r.size (x.state.bufs b)) ∧
      ∀ q ∈ x.queue, (x.state.tasks q).buf.isSome → q = p

variable {δ : Type} {ar : Arith δ} {fuel : Nat} {s s' : State} {p b : Ptr} {a : Add} {n i : Nat}
  {v v' : δ} {x x' : Filling} {r : Stp} {m : Ramp} {buf : Option Ptr}

/-! ## What is filled -/

/-- The `n` duties that `fillBuf` writes. -/
def duties (ar : Arith δ) (change : δ → δ) (duty : Stp) : Nat → δ → Option (List Stp)
  | 0, _ => some []
  | n + 1, v => do
    let x ← ar.toStp (ar.div (ar.ofStp duty) (change v))
    let xs ← duties ar change duty n (change v)
    some (x :: xs)

theorem duties_length {f : δ → δ} {duty : Stp} {xs : List Stp}
    (h : duties ar f duty n v = some xs) : xs.length = n := by
  induction n generalizing v xs with
  | zero =>
    cases h
    rfl
  | succ n ih =>
    obtain ⟨y, -, hrest⟩ := Option.bind_eq_some_iff.mp h
    obtain ⟨ys, hys, heq⟩ := Option.bind_eq_some_iff.mp hrest
    cases heq
    exact congrArg (· + 1) (ih hys)

/-- The elements from `i` on are the duties, all others are what they were. -/
theorem fillBuf_spec {f : δ → δ} {duty : Stp} {l l' : List Stp}
    (h : fillBuf ar f duty n i v l = some (v', l')) (hi : i ≤ l.length) :
    ∃ xs, duties ar f duty n v = some xs ∧ i + n ≤ l.length ∧
      l' = l.take i ++ xs ++ l.drop (i + n) := by
  induction n generalizing i v l with
  | zero =>
    cases h
    refine ⟨[], rfl, hi, ?_⟩
    rw [List.append_nil, Nat.add_zero, List.take_append_drop]
  | succ n ih =>
    obtain ⟨y, hy, hrest⟩ := Option.bind_eq_some_iff.mp h
    split at hrest
    · rename_i hlt
      have hlength : (l.set i y).length = l.length := List.length_set
      obtain ⟨xs, hxs, hle, hl'⟩ := ih hrest (by omega)
      refine ⟨y :: xs, ?_, by omega, ?_⟩
      · apply Option.bind_eq_some_iff.mpr
        refine ⟨y, hy, Option.bind_eq_some_iff.mpr ⟨xs, hxs, rfl⟩⟩
      · rw [hl', List.drop_set_of_lt (by omega), List.take_succ_eq_append_getElem (by omega),
          List.getElem_set_self, List.take_set_of_le (Nat.le_refl i)]
        simp [Nat.add_assoc, Nat.add_comm 1 n]
    · cases hrest

/-- The change of the speed at each step of the ramp. -/
def Ramp.change (m : Ramp) (ar : Arith δ) (t : Task) (v : δ) : δ :=
  match m with
  | .acc => ar.add v (ar.ofStp t.acc)
  | .dec => ar.sub v (ar.ofStp t.dec)

/-- The buffer at `b` was filled with duties for the ramp of `t`. -/
structure FilledFor (ar : Arith δ) (m : Ramp) (t : Task) (b : Ptr) (s s' : State) : Prop where
  index : m.index s'.dev = 0
  room : (m.steps t).toNat ≤ (m.elems (s.bufs b)).length
  duties : ∃ v xs, duties ar (m.change ar t) s.dev.timDuty (m.steps t).toNat v = some xs ∧
    m.elems (s'.bufs b) = xs ++ (m.elems (s.bufs b)).drop (m.steps t).toNat

/-- The buffer for the ramp of `t` is filled if it is great enough; all others are left as
they are. -/
structure FillsRamp (ar : Arith δ) (m : Ramp) (t : Task) (buf : Option Ptr)
    (s s' : State) : Prop where
  size : ∀ b, m.size (s'.bufs b) = m.size (s.bufs b)
  index : buf = none → m.index s'.dev = m.index s.dev
  filled : ∀ b, buf = some b → m.steps t < m.size (s.bufs b) → FilledFor ar m t b s s'
  kept : ∀ b, ¬(buf = some b ∧ m.steps t < m.size (s.bufs b)) →
    m.elems (s'.bufs b) = m.elems (s.bufs b)

/-- Nothing of what `FillsRamp` is about has changed. -/
structure KeepsRamp (m : Ramp) (s s' : State) : Prop where
  size : ∀ b, m.size (s'.bufs b) = m.size (s.bufs b)
  index : m.index s'.dev = m.index s.dev
  duty : s'.dev.timDuty = s.dev.timDuty
  elems : ∀ b, m.elems (s'.bufs b) = m.elems (s.bufs b)

theorem KeepsRamp.refl (m : Ramp) (s : State) : KeepsRamp m s s :=
  ⟨fun _ => rfl, rfl, rfl, fun _ => rfl⟩

theorem keepsRamp_setTask (m : Ramp) (s : State) (p : Ptr) (t : Task) :
    KeepsRamp m s (s.setTask p t) :=
  ⟨fun _ => rfl, rfl, rfl, fun _ => rfl⟩

theorem FillsRamp.trans_keeps {t : Task} (h : FillsRamp ar m t buf s s')
    (h' : KeepsRamp m s' s'') : FillsRamp ar m t buf s s'' := by
  refine ⟨fun b => (h'.size b).trans (h.size b), fun hb => h'.index.trans (h.index hb),
    fun b hb hlt => ?_, fun b hb => (h'.elems b).trans (h.kept b hb)⟩
  obtain ⟨hindex, hroom, v, xs, hxs, helems⟩ := h.filled b hb hlt
  exact ⟨h'.index.trans hindex, hroom, v, xs, hxs, (h'.elems b).trans helems⟩

theorem KeepsRamp.trans_fills {t : Task} (h : KeepsRamp m s s')
    (h' : FillsRamp ar m t buf s' s'') : FillsRamp ar m t buf s s'' := by
  refine ⟨fun b => (h'.size b).trans (h.size b), fun hb => (h'.index hb).trans h.index,
    fun b hb hlt => ?_, fun b hb => ?_⟩
  · rw [← h.size] at hlt
    obtain ⟨hindex, hroom, v, xs, hxs, helems⟩ := h'.filled b hb hlt
    rw [h.elems] at hroom helems
    rw [h.duty] at hxs
    exact ⟨hindex, hroom, v, xs, hxs, helems⟩
  · rw [← h.size] at hb
    exact (h'.kept b hb).trans (h.elems b)

theorem FillsRamp.of_task {t t' : Task} (h : FillsRamp ar m t buf s s')
    (hsteps : m.steps t' = m.steps t) (hchange : m.change ar t' = m.change ar t) :
    FillsRamp ar m t' buf s s' := by
  refine ⟨h.size, h.index, fun b hb hlt => ?_, fun b hb => ?_⟩
  · rw [hsteps] at hlt
    obtain ⟨hindex, hroom, hduties⟩ := h.filled b hb hlt
    constructor
    · exact hindex
    · rwa [hsteps]
    · rwa [hsteps, hchange]
  · rw [hsteps] at hb
    exact h.kept b hb

/-- The loop over one of the buffers at `b`. -/
theorem fillsRamp_update {t : Task} {u : StpBuf} {dev : Dev} {v' : δ} {l : List Stp}
    (h : fillBuf ar (m.change ar t) s.dev.timDuty (m.steps t).toNat 0 v (m.elems (s.bufs b)) =
      some (v', l))
    (hlt : m.steps t < m.size (s.bufs b)) (hsize : m.size u = m.size (s.bufs b))
    (helems : m.elems u = l) (hindex : m.index dev = 0) :
    FillsRamp ar m t (some b) s { s with dev := dev, bufs := Function.update s.bufs b u } := by
  obtain ⟨xs, hxs, hle, hl⟩ := fillBuf_spec h (Nat.zero_le _)
  rw [Nat.zero_add] at hle
  rw [Nat.zero_add, List.take_zero, List.nil_append] at hl
  refine ⟨fun c => ?_, fun hb => absurd hb (Option.some_ne_none b), fun c hc _ => ?_,
    fun c hc => ?_⟩
  · show m.size (Function.update s.bufs b u c) = _
    by_cases hcb : c = b
    · rw [hcb, Function.update_self, hsize]
    · rw [Function.update_of_ne hcb]
  · obtain rfl := Option.some.inj hc
    refine ⟨hindex, hle, v, xs, hxs, ?_⟩
    show m.elems (Function.update s.bufs b u b) = _
    rw [Function.update_self, helems, hl]
  · show m.elems (Function.update s.bufs b u c) = _
    by_cases hcb : c = b
    · rw [hcb] at hc
      exact absurd ⟨rfl, hlt⟩ hc
    · rw [Function.update_of_ne hcb]

theorem keepsRamp_update {u : StpBuf} {dev : Dev} (hsize : m.size u = m.size (s.bufs b))
    (helems : m.elems u = m.elems (s.bufs b)) (hindex : m.index dev = m.index s.dev)
    (hduty : dev.timDuty = s.dev.timDuty) :
    KeepsRamp m s { s with dev := dev, bufs := Function.update s.bufs b u } := by
  refine ⟨fun c => ?_, hindex, hduty, fun c => ?_⟩
  · show m.size (Function.update s.bufs b u c) = _
    by_cases hcb : c = b
    · rw [hcb, Function.update_self, hsize]
    · rw [Function.update_of_ne hcb]
  · show m.elems (Function.update s.bufs b u c) = _
    by_cases hcb : c = b
    · rw [hcb, Function.update_self, helems]
    · rw [Function.update_of_ne hcb]

/-- A buffer that is not great enough is not touched. -/
theorem fillsRamp_small {t : Task} (h : ¬m.steps t < m.size (s.bufs b)) :
    FillsRamp ar m t (some b) s s := by
  refine ⟨fun _ => rfl, fun _ => rfl, fun c hc hlt => ?_, fun _ _ => rfl⟩
  obtain rfl := Option.some.inj hc
  exact absurd hlt h

theorem fillAcc_spec (h : fillAcc ar s p b v = some (v', s')) :
    FillsRamp ar .acc (s.tasks p) (some b) s s' ∧ KeepsRamp .dec s s' := by
  rcases fillAcc_cases h with ⟨hlt, accBuf, hfill, rfl⟩ | ⟨hsmall, rfl⟩
  · exact ⟨fillsRamp_update hfill hlt rfl rfl rfl, keepsRamp_update rfl rfl rfl rfl⟩
  · exact ⟨fillsRamp_small hsmall, KeepsRamp.refl _ _⟩

theorem fillDec_spec (h : fillDec ar s p b v = some s') :
    FillsRamp ar .dec (s.tasks p) (some b) s s' ∧ KeepsRamp .acc s s' := by
  rcases fillDec_cases h with ⟨hlt, v', decBuf, hfill, rfl⟩ | ⟨hsmall, rfl⟩
  · exact ⟨fillsRamp_update hfill hlt rfl rfl rfl, keepsRamp_update rfl rfl rfl rfl⟩
  · exact ⟨fillsRamp_small hsmall, KeepsRamp.refl _ _⟩

theorem fillBufs_spec (h : fillBufs ar s p v buf = some s') (m : Ramp) :
    FillsRamp ar m (s.tasks p) buf s s' := by
  cases buf with
  | none =>
    cases h
    refine ⟨fun _ => rfl, fun _ => rfl, fun b hb => ?_, fun _ _ => rfl⟩
    cases hb
  | some b =>
    obtain ⟨⟨v', s₁⟩, hacc, hdec⟩ := Option.bind_eq_some_iff.mp h
    obtain ⟨hfills₁, hkeeps₁⟩ := fillAcc_spec hacc
    obtain ⟨hfills₂, hkeeps₂⟩ := fillDec_spec (v := v') hdec
    rw [fillAcc_tasks hacc] at hfills₂
    cases m with
    | acc => exact hfills₁.trans_keeps hkeeps₂
    | dec => exact hkeeps₁.trans_fills hfills₂

theorem linkTask_keeps (h : linkTask ar fuel s p = some (v, s')) (m : Ramp) :
    KeepsRamp m s s' := by
  rcases linkTask_cases h with ⟨-, -, rfl⟩ | ⟨q, last, -, -, -, rfl⟩
  · cases m with
    | acc => exact ⟨fun _ => rfl, rfl, rfl, fun _ => rfl⟩
    | dec => exact ⟨fun _ => rfl, rfl, rfl, fun _ => rfl⟩
  · exact keepsRamp_setTask ..

/-- An accepted call fills the buffers of its task, as far as these are great enough. -/
theorem add_fills (h : a.call ar fuel s = some (r, s')) (hr : r ≠ 0) (m : Ramp) :
    FillsRamp ar m (s'.tasks a.task) a.buf s s' := by
  obtain ⟨accSteps, accDelta, decSteps, decDelta, -, -,
    ⟨-, rfl, -⟩ | ⟨-, -, v, s₂, s₃, hlink, hfill, rfl⟩⟩ := stepperAddTask_cases h
  · exact absurd rfl hr
  · have hfills : FillsRamp ar m (s₂.tasks a.task) a.buf s
        (s₃.setTask a.task { s₃.tasks a.task with state := .idle }) := by
      apply KeepsRamp.trans_fills (keepsRamp_setTask ..)
      apply KeepsRamp.trans_fills (linkTask_keeps hlink m)
      exact (fillBufs_spec hfill m).trans_keeps (keepsRamp_setTask ..)
    rw [setTask_self]
    apply hfills.of_task
    · rw [fillBufs_tasks hfill]
      cases m with
      | acc => rfl
      | dec => rfl
    · rw [fillBufs_tasks hfill]
      cases m with
      | acc => rfl
      | dec => rfl

theorem FilledFor.length {t : Task} (h : FilledFor ar m t b s s') :
    (m.elems (s'.bufs b)).length = (m.elems (s.bufs b)).length := by
  obtain ⟨-, hroom, v, xs, hxs, helems⟩ := h
  rw [helems, List.length_append, List.length_drop, duties_length hxs]
  omega

theorem FillsRamp.length {t : Task} (h : FillsRamp ar m t buf s s') (b : Ptr) :
    (m.elems (s'.bufs b)).length = (m.elems (s.bufs b)).length := by
  by_cases hb : buf = some b ∧ m.steps t < m.size (s.bufs b)
  · exact (h.filled b hb.1 hb.2).length
  · rw [h.kept b hb]

/-! ## One call -/

/-- What is known of the tasks that were accepted, and of what was written for them. -/
structure Sound (x : Filling) : Prop where
  idle : ∀ p ∈ x.queue, (x.state.tasks p).state = .idle
  wrote : ∀ (m : Ramp) b i p, x.written m b i = some p → p ∈ x.queue ∧
    i < (m.elems (x.state.bufs b)).length ∧ m.steps (x.state.tasks p) < m.size (x.state.bufs b)
  sole : ∀ p ∈ x.queue, ∀ b, (x.state.tasks p).buf = some b →
    (∀ q ∈ x.queue, (x.state.tasks q).buf.isSome → q = p) → ∀ m : Ramp,
      m.steps (x.state.tasks p) < m.size (x.state.bufs b) →
        m.index x.state.dev = 0 ∧
          ∀ i < (m.steps (x.state.tasks p)).toNat, x.written m b i = some p

theorem sound_empty (s : State) : Sound (.empty s) := by
  refine ⟨fun p hp => ?_, fun m b i p h => ?_, fun p hp => ?_⟩
  · cases hp
  · cases h
  · cases hp

theorem sound_refused (hx : Sound x) (hfresh : Fresh x a) (h : Refused a x.state s') :
    Sound { x with state := s' } := by
  have htasks : ∀ p ∈ x.queue, s'.tasks p = x.state.tasks p := by
    intro p hp
    apply h.others p
    rintro rfl
    exact hfresh hp
  constructor
  · intro p hp
    show (s'.tasks p).state = .idle
    rw [htasks p hp]
    exact hx.idle p hp
  · intro m b i p hwritten
    obtain ⟨hp, hi, hlt⟩ := hx.wrote m b i p hwritten
    show p ∈ x.queue ∧ _ < (m.elems (s'.bufs b)).length ∧ m.steps (s'.tasks p) < m.size (s'.bufs b)
    rw [htasks p hp, h.bufs]
    exact ⟨hp, hi, hlt⟩
  · intro p hp b hb hsole m hlt
    change (s'.tasks p).buf = some b at hb
    change ∀ q ∈ x.queue, (s'.tasks q).buf.isSome → q = p at hsole
    change m.steps (s'.tasks p) < m.size (s'.bufs b) at hlt
    show m.index s'.dev = 0 ∧ ∀ i < (m.steps (s'.tasks p)).toNat, x.written m b i = some p
    rw [htasks p hp] at hb hlt ⊢
    rw [h.bufs] at hlt
    rw [h.dev]
    refine hx.sole p hp b hb (fun q hq hsome => hsole q hq ?_) m hlt
    rw [htasks q hq]
    exact hsome

section Accepted

variable (hx : Sound x) (hfresh : Fresh x a) (happ : Appended fuel a x.state s')
  (hfills : ∀ m, FillsRamp ar m (s'.tasks a.task) a.buf x.state s')
include hfresh happ

/-- The tasks that were in the queue before keep all but their link. -/
theorem kept_accepted (hp : p ∈ x.queue) :
    (s'.tasks p).state = (x.state.tasks p).state ∧ (s'.tasks p).buf = (x.state.tasks p).buf ∧
      ∀ m : Ramp, m.steps (s'.tasks p) = m.steps (x.state.tasks p) := by
  obtain ⟨next, htask⟩ : ∃ next, s'.tasks p = { x.state.tasks p with next := next } := by
    apply happ.others p
    rintro rfl
    exact hfresh hp
  rw [htask]
  refine ⟨rfl, rfl, fun m => ?_⟩
  cases m with
  | acc => rfl
  | dec => rfl

include hx hfills

/-- What is written for the new task lies in its buffer. -/
theorem wrote_accepted {b : Ptr} {q : Ptr} (hwritten : x.record s' a m b i = some q) :
    q ∈ x.queue ++ [a.task] ∧ i < (m.elems (s'.bufs b)).length ∧
      m.steps (s'.tasks q) < m.size (s'.bufs b) := by
  unfold Filling.record at hwritten
  split at hwritten
  · rename_i hnew
    obtain ⟨hb, hlt, hi⟩ := hnew
    obtain rfl := Option.some.inj hwritten
    have hfilled := (hfills m).filled b hb (by rwa [← (hfills m).size])
    refine ⟨List.mem_append_right _ (List.mem_singleton_self _), ?_, hlt⟩
    rw [hfilled.length]
    exact Nat.lt_of_lt_of_le hi hfilled.room
  · obtain ⟨hq, hi, hlt⟩ := hx.wrote m b i q hwritten
    rw [(kept_accepted hfresh happ hq).2.2 m, (hfills m).size, (hfills m).length]
    exact ⟨List.mem_append_left _ hq, hi, hlt⟩

/-- A task of the queue before that is the only one with buffers keeps what was written for
it. -/
theorem sole_accepted {b : Ptr} (hp : p ∈ x.queue) (hb : (s'.tasks p).buf = some b)
    (hsole : ∀ q ∈ x.queue ++ [a.task], (s'.tasks q).buf.isSome → q = p)
    (hlt : m.steps (s'.tasks p) < m.size (s'.bufs b)) :
    m.index s'.dev = 0 ∧ ∀ i < (m.steps (s'.tasks p)).toNat, x.record s' a m b i = some p := by
  obtain ⟨-, hbuf, hsteps⟩ := kept_accepted hfresh happ hp
  have hnone : a.buf = none := by
    by_contra hsome
    have hbuffered : (s'.tasks a.task).buf.isSome := by
      rw [happ.buf]
      exact Option.isSome_iff_ne_none.mpr hsome
    have htask := hsole a.task (List.mem_append_right _ (List.mem_singleton_self _)) hbuffered
    rw [← htask] at hp
    exact hfresh hp
  rw [hsteps m, (hfills m).size] at hlt
  rw [hbuf] at hb
  obtain ⟨hzero, howns⟩ := hx.sole p hp b hb (fun q hq hsome => by
    apply hsole q (List.mem_append_left _ hq)
    rw [(kept_accepted hfresh happ hq).2.1]
    exact hsome) m hlt
  refine ⟨((hfills m).index hnone).trans hzero, fun i hi => ?_⟩
  rw [hsteps m] at hi
  unfold Filling.record
  rw [if_neg fun h => Option.some_ne_none b (h.1.symm.trans hnone)]
  exact howns i hi

theorem sound_accepted : Sound ⟨s', x.record s' a, x.queue ++ [a.task]⟩ := by
  constructor
  · intro p hp
    show (s'.tasks p).state = .idle
    rcases List.mem_append.mp hp with hp | hp
    · exact (kept_accepted hfresh happ hp).1.trans (hx.idle p hp)
    · rw [List.mem_singleton.mp hp]
      exact happ.state
  · exact fun m b i q hwritten => wrote_accepted hx hfresh happ hfills hwritten
  · intro p hp b hb hsole m hlt
    rcases List.mem_append.mp hp with hp | hp
    · exact sole_accepted hx hfresh happ hfills hp hb hsole hlt
    · obtain rfl := List.mem_singleton.mp hp
      have hb' : a.buf = some b := happ.buf.symm.trans hb
      have hfilled := (hfills m).filled b hb' (by rwa [← (hfills m).size])
      exact ⟨hfilled.index, fun i hi => if_pos ⟨hb', hlt, hi⟩⟩

end Accepted

theorem sound_step (hx : Sound x) (hfresh : Fresh x a) (h : fill ar fuel x a = some (r, x')) :
    Sound x' := by
  obtain ⟨⟨r', s'⟩, hcall, heq⟩ := Option.map_eq_some_iff.mp h
  cases heq
  rcases Add.call_cases hcall with ⟨-, rfl, href⟩ | ⟨-, hr, happ⟩
  · exact sound_refused hx hfresh href
  · show Sound (if r = 0 then _ else _)
    rw [if_neg hr]
    exact sound_accepted hx hfresh happ (add_fills hcall hr)

/-- **What is recorded** of an accepted call is what it has written: the duties of the ramp of
its task. -/
theorem recorded_duties (h : fill ar fuel x a = some (r, x')) (hr : r ≠ 0) (hb : a.buf = some b)
    (hlt : m.steps (x'.state.tasks a.task) < m.size (x'.state.bufs b)) :
    (∃ v xs, duties ar (m.change ar (x'.state.tasks a.task)) x.state.dev.timDuty
        (m.steps (x'.state.tasks a.task)).toNat v = some xs ∧
      ∀ i (hi : i < xs.length), (m.elems (x'.state.bufs b))[i]? = some xs[i]) ∧
    ∀ i < (m.steps (x'.state.tasks a.task)).toNat, x'.written m b i = some a.task := by
  obtain ⟨⟨r', s'⟩, hcall, heq⟩ := Option.map_eq_some_iff.mp h
  cases heq
  rw [if_neg hr] at hlt ⊢
  have hfills := add_fills hcall hr m
  obtain ⟨-, -, v, xs, hxs, helems⟩ := hfills.filled b hb (by rwa [← hfills.size])
  refine ⟨⟨v, xs, hxs, fun i hi => ?_⟩, fun i hi => ?_⟩
  · show (m.elems (s'.bufs b))[i]? = _
    rw [helems, List.getElem?_append_left hi, List.getElem?_eq_getElem hi]
  · exact if_pos ⟨hb, hlt, hi⟩

/-- An element that a call has changed is recorded for its task. -/
theorem recorded_of_changed (h : fill ar fuel x a = some (r, x'))
    (hchanged : (m.elems (x'.state.bufs b))[i]? ≠ (m.elems (x.state.bufs b))[i]?) :
    x'.written m b i = some a.task := by
  obtain ⟨⟨r', s'⟩, hcall, heq⟩ := Option.map_eq_some_iff.mp h
  cases heq
  rcases Add.call_cases hcall with ⟨-, rfl, href⟩ | ⟨-, hr, -⟩
  · rw [if_pos rfl] at hchanged
    exact absurd (by rw [href.bufs]) hchanged
  · rw [if_neg hr] at hchanged ⊢
    change (m.elems (s'.bufs b))[i]? ≠ _ at hchanged
    have hfills := add_fills hcall hr m
    have hlarge : a.buf = some b ∧ m.steps (s'.tasks a.task) < m.size (x.state.bufs b) := by
      by_contra hkept
      rw [hfills.kept b hkept] at hchanged
      exact hchanged rfl
    obtain ⟨-, -, v, xs, hxs, helems⟩ := hfills.filled b hlarge.1 hlarge.2
    have hi : i < (m.steps (s'.tasks a.task)).toNat := by
      by_contra hge
      have hlength := duties_length hxs
      rw [helems, List.getElem?_append_right (by omega), List.getElem?_drop, hlength,
        Nat.add_sub_cancel' (Nat.le_of_not_lt hge)] at hchanged
      exact hchanged rfl
    apply if_pos
    rw [hfills.size]
    exact ⟨hlarge.1, hlarge.2, hi⟩

/-! ## The queue -/

theorem linked_nodup {tasks : Ptr → Task} {y : Option Ptr} {ps : List Ptr}
    (h : Linked tasks y ps) : ps.Nodup := by
  induction ps generalizing y with
  | nil => exact List.nodup_nil
  | cons p ps ih =>
    cases y with
    | none => exact absurd h id
    | some q =>
      obtain ⟨rfl, hrest⟩ := h
      exact List.nodup_cons.mpr ⟨linked_not_mem hrest, ih hrest⟩

theorem stepperRun_same {calls : List Call} (h : stepperRun s = some (calls, s')) :
    s'.dev = s.dev ∧ s'.bufs = s.bufs ∧ ∀ q, (s'.tasks q).buf = (s.tasks q).buf := by
  obtain ⟨p, -, ⟨-, -, rfl⟩ | ⟨-, -, rfl⟩⟩ := stepperRun_cases h
  · exact ⟨rfl, rfl, fun q => rfl⟩
  · refine ⟨rfl, rfl, fun q => ?_⟩
    by_cases hq : q = p
    · rw [hq, setTask_self]
    · rw [setTask_of_ne s hq]

/-- What was written is known from the tasks alone. -/
theorem oneOwner_iff (hx : Sound x)
    (hpos : ∀ p ∈ x.queue, ∀ m : Ramp, 1 ≤ (m.steps (x.state.tasks p)).toNat) :
    (x.OneOwner x.queue fun m => m.index x.state.dev) ↔ x.OneBuffered := by
  constructor
  · intro hone p hp b hb
    obtain ⟨howns, hsole⟩ := hone p hp b hb
    refine ⟨fun m => ?_, hsole⟩
    obtain ⟨-, hwritten⟩ := (howns m).2 0 (hpos p hp m)
    exact (hx.wrote m b 0 p hwritten).2.2
  · intro hone p hp b hb
    obtain ⟨hsize, hsole⟩ := hone p hp b hb
    refine ⟨fun m => ?_, hsole⟩
    obtain ⟨hzero, hwritten⟩ := hx.sole p hp b hb hsole m (hsize m)
    have hlt := UInt16.lt_iff_toNat_lt.mp (hsize m)
    exact ⟨hzero, fun i hi => ⟨Nat.lt_trans hi hlt, hwritten i hi⟩⟩

/-- **The buffers are read where they were filled**, however the interrupts come, exactly when
at most one task of the queue has buffers and these are greater than its ramps. -/
theorem reads_filled_iff {adds : List Add} {rs : List Stp} {start : List Call} {s₁ : State}
    (hfresh : AlongRun (fill ar fuel) Fresh (.empty s) adds)
    (hrun : run (fill ar fuel) (.empty s) adds = some (rs, x))
    (hlinked : Linked x.state.tasks x.state.dev.nextTask x.queue)
    (hpos : ∀ p ∈ x.queue, ∀ m : Ramp, 1 ≤ (m.steps (x.state.tasks p)).toNat)
    (hstart : stepperRun x.state = some (start, s₁)) :
    (∀ is, AlongRun isr (ReadsFilled x) s₁ is) ↔ x.OneBuffered := by
  have hsound : Sound x :=
    inv_of_alongRun (fun _ _ _ _ hx hf h => sound_step hx hf h) (sound_empty s) hfresh hrun
  have hrec : x.Recorded := fun m b i p h => (hsound.wrote m b i p h).2.1
  obtain ⟨hdev, hbufs, hbuf⟩ := stepperRun_same hstart
  have hserving : Serving x s₁ (waiting x.state.tasks x.queue) :=
    ⟨(ahead_start hlinked hsound.idle hstart).1, hbufs, hbuf⟩
  have hsafe := safe_iff_allFit hrec hserving
  rw [hdev, allFit_waiting (linked_nodup hlinked) hpos, oneOwner_iff hsound hpos] at hsafe
  exact hsafe

/-- An empty queue; the first buffers are greater than the ramps of `ramped`, all others are
as great. -/
def unfilled : State where
  dev := ⟨true, false, 0, 0, 0, 0, 0, none, 0, 1000⟩
  tasks _ := ⟨0, 0, 0, 0, 0, 0, 0, .accl, none, none⟩
  bufs
    | 0 => ⟨List.replicate 6 0, List.replicate 4 0, 6, 4⟩
    | _ => ⟨List.replicate 5 0, List.replicate 3 0, 5, 3⟩

/-- The task at `p` with 100 steps, 5 of them to accelerate and 3 to decelerate. -/
def ramped (p : Ptr) (buf : Option Ptr) : Add := ⟨p, 100, 10, 10, 16, 0, buf⟩

theorem reads_filled_first : ∃ rs x start s₁,
    run (fill double 8) (.empty unfilled) [ramped 0 (some 0), ramped 1 none] = some (rs, x) ∧
      stepperRun x.state = some (start, s₁) ∧ ∀ is, AlongRun isr (ReadsFilled x) s₁ is := by
  have h : (run (fill double 8) (.empty unfilled) [ramped 0 (some 0), ramped 1 none]).any
      fun r => r.2.queue = [0, 1] ∧ Linked r.2.state.tasks r.2.state.dev.nextTask [0, 1] ∧
        r.2.state.tasks 0 = ⟨10, 92, 5, 3, 2, 3, 0, .idle, some 0, some 1⟩ ∧
        r.2.state.tasks 1 = ⟨10, 92, 5, 3, 2, 3, 0, .idle, none, none⟩ ∧
        (r.2.state.bufs 0).accBufSize = 6 ∧ (r.2.state.bufs 0).decBufSize = 4 := by
    decide +kernel
  obtain ⟨⟨rs, x⟩, hrun, hend⟩ := (Option.any_eq_true _ _).mp h
  obtain ⟨hqueue, hlinked, hfirst, hsecond, hacc, hdec⟩ := of_decide_eq_true hend
  dsimp only at hqueue hlinked hfirst hsecond hacc hdec
  have hfresh : AlongRun (fill double 8) Fresh (.empty unfilled)
      [ramped 0 (some 0), ramped 1 none] := by
    decide +kernel
  obtain ⟨start, hstart⟩ : ∃ start, stepperRun x.state =
      some (start, x.state.setTask 0 { x.state.tasks 0 with state := .accl }) := by
    refine ⟨_, stepperRun_idle ?_ ?_⟩
    · cases hp : x.state.dev.nextTask with
      | none =>
        rw [hp] at hlinked
        exact absurd hlinked id
      | some p =>
        rw [hp] at hlinked
        rw [hlinked.1]
    · rw [hfirst]
  refine ⟨rs, x, start, _, hrun, hstart,
    (reads_filled_iff hfresh hrun (hqueue.symm ▸ hlinked) ?_ hstart).mpr ?_⟩
  · rw [hqueue]
    rintro p (_ | ⟨_, _ | ⟨_, hp⟩⟩) m
    · rw [hfirst]
      cases m with
      | acc => decide
      | dec => decide
    · rw [hsecond]
      cases m with
      | acc => decide
      | dec => decide
    · cases hp
  · unfold Filling.OneBuffered
    rw [hqueue]
    rintro p (_ | ⟨_, _ | ⟨_, hp⟩⟩) b hb
    · rw [hfirst] at hb ⊢
      cases hb
      refine ⟨fun m => ?_, ?_⟩
      · cases m with
        | acc =>
          show (5 : Stp) < (x.state.bufs 0).accBufSize
          rw [hacc]
          decide
        | dec =>
          show (3 : Stp) < (x.state.bufs 0).decBufSize
          rw [hdec]
          decide
      · rintro q (_ | ⟨_, _ | ⟨_, hq⟩⟩) hsome
        · rfl
        · rw [hsecond] at hsome
          cases hsome
        · cases hq
    · rw [hsecond] at hb
      cases hb
    · cases hp

/-- The buffers have room for the ramps and not more: they are not filled, but read. -/
theorem unfilled_read : ∃ rs x start s₁,
    run (fill double 8) (.empty unfilled) [ramped 0 (some 1)] = some (rs, x) ∧
      x.queue = [0] ∧ stepperRun x.state = some (start, s₁) ∧
      ¬AlongRun isr (ReadsFilled x) s₁ [.isr1] := by
  have h : (run (fill double 8) (.empty unfilled) [ramped 0 (some 1)]).any
      fun r => r.2.queue = [0] ∧ r.2.state.dev.nextTask = some 0 ∧
        r.2.state.dev.prevState = 0 ∧ r.2.state.dev.accSteps = 0 ∧
        r.2.state.tasks 0 = ⟨10, 92, 5, 3, 2, 3, 0, .idle, some 1, none⟩ ∧
        r.2.written .acc 1 0 = none := by
    decide +kernel
  obtain ⟨⟨rs, x⟩, hrun, hend⟩ := (Option.any_eq_true _ _).mp h
  obtain ⟨hqueue, hhead, hlow, hindex, htask, hwritten⟩ := of_decide_eq_true hend
  dsimp only at hqueue hhead hlow hindex htask hwritten
  have hidle : (x.state.tasks 0).state = .idle := by rw [htask]
  refine ⟨rs, x, _, _, hrun, hqueue, stepperRun_idle hhead hidle, fun hreads => ?_⟩
  have hruns : Runs 0 (x.state.setTask 0 { x.state.tasks 0 with state := .accl }) := by
    refine ⟨hhead, ?_⟩
    rw [setTask_self]
    exact id
  have hfit := hreads.1 .acc 0 1 hruns hlow (by rw [setTask_self]; rfl)
    (by rw [setTask_self, htask])
  have hzero : (Ramp.acc.index x.state.dev).toNat = 0 := congrArg UInt16.toNat hindex
  obtain ⟨-, -, hsome⟩ := hfit
  change x.written .acc 1 (Ramp.acc.index x.state.dev).toNat = some 0 at hsome
  rw [hzero, hwritten] at hsome
  cases hsome

end MyLibraries.Stepper
