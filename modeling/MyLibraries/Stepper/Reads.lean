import MyLibraries.Stepper.Calls
import MyLibraries.Stepper.Schedule

/-!
# The reads of the profile buffers

The interrupt handler reads the two buffers of a task at indices that lie in the device, and
that all tasks share. Which element an edge reads is known from the schedule of the queue:
the indices advance with the edges of the tasks that have buffers.
-/

namespace MyLibraries.Stepper

open Run

/-! ## The two ramps -/

inductive Ramp
  | acc
  | dec
  deriving DecidableEq, Repr

def Ramp.phase : Ramp → StateT
  | .acc => .accl
  | .dec => .decl

/-- The steps of a task in the ramp. -/
def Ramp.steps (r : Ramp) (t : Task) : Stp :=
  match r with
  | .acc => t.accSteps
  | .dec => t.decSteps

/-- The index into the buffers for the ramp. -/
def Ramp.index (r : Ramp) (dev : Dev) : Stp :=
  match r with
  | .acc => dev.accSteps
  | .dec => dev.decSteps

def Ramp.size (r : Ramp) (b : StpBuf) : Stp :=
  match r with
  | .acc => b.accBufSize
  | .dec => b.decBufSize

def Ramp.elems (r : Ramp) (b : StpBuf) : List Stp :=
  match r with
  | .acc => b.accBuf
  | .dec => b.decBuf

/-! ## What was filled -/

/-- A state in which tasks have been added: who has written the elements of the buffers, and
the tasks that were accepted. -/
structure Filling where
  state : State
  written : Ramp → Ptr → Nat → Option Ptr
  queue : List Ptr

/-- An element that the task at `p` may read: inside of its ramp and of the buffer at `b`, and
written for this task. -/
def Filling.Fit (x : Filling) (r : Ramp) (p b : Ptr) (i : Nat) : Prop :=
  i < (r.steps (x.state.tasks p)).toNat ∧ i < (r.size (x.state.bufs b)).toNat ∧
    x.written r b i = some p

/-- What an interrupt reads was filled. -/
def ReadsFilled (x : Filling) (s : State) : Isr → Prop
  | .isr1 => ∀ r p b, Runs p s → s.dev.prevState = 0 → (s.tasks p).state = r.phase →
      (s.tasks p).buf = some b → x.Fit r p b (r.index s.dev).toNat
  | .isr2 _ => True

/-- The indices behind an edge. -/
def Filling.advance (x : Filling) (e : Ptr × StateT) (ix : Ramp → Stp) (r : Ramp) : Stp :=
  if e.2 = r.phase ∧ (x.state.tasks e.1).buf.isSome then ix r + 1 else ix r

/-- All reads of a schedule are of elements that were filled. -/
def Filling.AllFit (x : Filling) : List (Ptr × StateT) → (Ramp → Stp) → Prop
  | [], _ => True
  | e :: es, ix =>
    (∀ r b, e.2 = r.phase → (x.state.tasks e.1).buf = some b → x.Fit r e.1 b (ix r).toNat) ∧
      x.AllFit es (x.advance e ix)

/-- The elements that were written are there. -/
def Filling.Recorded (x : Filling) : Prop :=
  ∀ r b i p, x.written r b i = some p → i < (r.elems (x.state.bufs b)).length

/-- The queue has a schedule ahead, and its buffers are those that were filled. -/
structure Serving (x : Filling) (s : State) (es : List (Ptr × StateT)) : Prop where
  ahead : Ahead s es
  bufs : s.bufs = x.state.bufs
  buf : ∀ q, (s.tasks q).buf = (x.state.tasks q).buf

/-- The head of the queue is not at work. -/
def Halted (s : State) : Prop := ∃ p, s.dev.nextTask = some p ∧ (s.tasks p).state.Inactive

variable {x : Filling} {s s' : State} {p b : Ptr} {es : List (Ptr × StateT)} {r : Ramp}
  {ix : Ramp → Stp} {e : Ptr × StateT} {calls : List Call} {answer : Stp}

/-! ## One interrupt -/

theorem readable_of_ramp (h : ∀ (r : Ramp) (b : Ptr), (s.tasks p).state = r.phase →
    (s.tasks p).buf = some b → (r.index s.dev).toNat < (r.elems (s.bufs b)).length) :
    Readable s p := by
  unfold Readable
  split
  · rename_i b hst hbuf
    exact h .acc b hst hbuf
  · rename_i b hst hbuf
    exact h .dec b hst hbuf
  · trivial

/-- What an edge reads, read off the schedule. -/
theorem readsFilled_iff (h : Serving x s (e :: es)) (hlow : s.dev.prevState = 0) :
    ReadsFilled x s .isr1 ↔ ∀ r b, e.2 = r.phase → (x.state.tasks e.1).buf = some b →
      x.Fit r e.1 b (r.index s.dev).toNat := by
  obtain ⟨hruns, hphase⟩ := ahead_head h.ahead
  constructor
  · intro hreads r b hr hb
    exact hreads r e.1 b hruns hlow (hphase.trans hr) ((h.buf e.1).trans hb)
  · intro hfit r p b hp _ hr hb
    obtain rfl : p = e.1 := Option.some.inj (hp.1.symm.trans hruns.1)
    exact hfit r b (hphase.symm.trans hr) ((h.buf e.1).symm.trans hb)

/-- An edge whose read was filled takes the schedule on, and the indices with it. -/
theorem serving_rise (hrec : x.Recorded) (h : Serving x s (e :: es))
    (hlow : s.dev.prevState = 0) (hreads : ReadsFilled x s .isr1) :
    ∃ calls s', stepperIsr1 s = some (calls, s') ∧ Serving x s' es ∧
      (fun r => r.index s'.dev) = x.advance e fun r : Ramp => r.index s.dev := by
  obtain ⟨hruns, hphase⟩ := ahead_head h.ahead
  have hread : Readable s e.1 := by
    apply readable_of_ramp
    intro r b hr hb
    obtain ⟨-, -, hwritten⟩ := hreads r e.1 b hruns hlow hr hb
    rw [h.bufs]
    exact hrec _ _ _ _ hwritten
  obtain ⟨calls, s', hisr, -, hahead, -, hadvances, hbuf⟩ := isr1_rises h.ahead hlow hread
  refine ⟨calls, s', hisr, ⟨hahead, hadvances.bufs.trans h.bufs, fun q => ?_⟩, ?_⟩
  · exact (hbuf q).trans (h.buf q)
  · funext r
    unfold Filling.advance
    rw [← hphase, ← h.buf e.1]
    cases r with
    | acc => exact hadvances.accSteps
    | dec => exact hadvances.decSteps

/-- An edge is no interrupt that does nothing. -/
theorem isr1_ne_done (h : Runs p s) (hlow : s.dev.prevState = 0) :
    stepperIsr1 s ≠ some ([], s) := by
  intro hsame
  rw [stepperIsr1_rise h hlow] at hsame
  obtain ⟨r, -, heq⟩ := Option.bind_eq_some_iff.mp hsame
  cases congrArg Prod.fst (Option.some.inj heq)

theorem serving_fall (h : Serving x s es) :
    Serving x { s with dev := { s.dev with prevState := 0 } } es :=
  ⟨ahead_congr (s := s) rfl rfl h.ahead, h.bufs, h.buf⟩

theorem halted_isr1 (h : Halted s) : stepperIsr1 s = some ([], s) := by
  obtain ⟨p, hp, hinactive⟩ := h
  exact stepperIsr1_idle hp hinactive

/-- The second interrupt stops the head of the queue, or leaves the tasks alone. -/
theorem isr2_halts (s : State) (answer : Stp) :
    (stepperIsr2 s answer).tasks = s.tasks ∨ Halted (stepperIsr2 s answer) := by
  cases hp : s.dev.nextTask with
  | none =>
    rw [stepperIsr2_empty hp]
    exact .inl rfl
  | some p =>
    obtain ⟨hkeeps, -, -, htasks⟩ := stepperIsr2_cases hp answer
    split at htasks
    · refine .inr ⟨p, hkeeps.nextTask.trans hp, ?_⟩
      rw [htasks, Function.update_self]
      exact trivial
    · exact .inl htasks

theorem halted_isr2 (h : Halted s) (answer : Stp) : Halted (stepperIsr2 s answer) := by
  rcases isr2_halts s answer with htasks | hhalted
  · obtain ⟨p, hp, hinactive⟩ := h
    refine ⟨p, (stepperIsr2_keeps s answer).1.nextTask.trans hp, ?_⟩
    rw [htasks]
    exact hinactive
  · exact hhalted

/-! ## Runs of interrupts -/

/-- All reads from here on are of elements that were filled, however the interrupts come. -/
def Safe (x : Filling) (s : State) : Prop := ∀ is, AlongRun isr (ReadsFilled x) s is

theorem safe_isr1 (h : Safe x s) (hisr : stepperIsr1 s = some (calls, s')) : Safe x s' :=
  fun is => ((alongRun_cons (i := .isr1) hisr).mp (h (.isr1 :: is))).2

/-- A schedule is safe only when all of its reads are. -/
theorem allFit_of_safe (hrec : x.Recorded) (h : Serving x s es) (hsafe : Safe x s) :
    x.AllFit es fun r => r.index s.dev := by
  induction es generalizing s with
  | nil => trivial
  | cons e es ih =>
    have hrise : ∀ s, Serving x s (e :: es) → s.dev.prevState = 0 → Safe x s →
        x.AllFit (e :: es) fun r => r.index s.dev := by
      intro s h hlow hsafe
      have hreads : ReadsFilled x s .isr1 := (hsafe [.isr1]).1
      obtain ⟨calls, s', hisr, hserving, hindex⟩ := serving_rise hrec h hlow hreads
      refine ⟨(readsFilled_iff h hlow).mp hreads, ?_⟩
      rw [← hindex]
      exact ih hserving (safe_isr1 hsafe hisr)
    by_cases hlow : s.dev.prevState = 0
    · exact hrise s h hlow hsafe
    · have hfall := (isr1_falls h.ahead hlow).1
      exact hrise { s with dev := { s.dev with prevState := 0 } } (serving_fall h) rfl
        (safe_isr1 hsafe hfall)

/-- The reads that are left of a queue are of elements that were filled. -/
def Covered (x : Filling) (s : State) : Prop :=
  (∃ es, Serving x s es ∧ x.AllFit es fun r => r.index s.dev) ∨ Halted s

theorem covered_reads (h : Covered x s) (i : Isr) : ReadsFilled x s i := by
  cases i with
  | isr2 answer => trivial
  | isr1 =>
    intro r p b hruns hlow hr hb
    rcases h with ⟨es, hserving, hfit⟩ | ⟨q, hq, hinactive⟩
    · cases es with
      | nil =>
        have hsame := isr1_done hserving.ahead
        exact absurd hsame (isr1_ne_done hruns hlow)
      | cons e es => exact (readsFilled_iff hserving hlow).mpr hfit.1 r p b hruns hlow hr hb
    · obtain rfl : p = q := Option.some.inj (hruns.1.symm.trans hq)
      exact absurd hinactive hruns.2

theorem covered_isr1 (hrec : x.Recorded) (h : Covered x s)
    (hisr : stepperIsr1 s = some (calls, s')) : Covered x s' := by
  rcases h with ⟨es, hserving, hfit⟩ | hhalted
  · cases es with
    | nil =>
      cases (isr1_done hserving.ahead).symm.trans hisr
      exact .inl ⟨[], hserving, hfit⟩
    | cons e es =>
      by_cases hlow : s.dev.prevState = 0
      · obtain ⟨calls', s'', hisr', hserving', hindex⟩ := serving_rise hrec hserving hlow
          ((readsFilled_iff hserving hlow).mpr hfit.1)
        cases hisr'.symm.trans hisr
        refine .inl ⟨es, hserving', ?_⟩
        rw [hindex]
        exact hfit.2
      · cases (isr1_falls hserving.ahead hlow).1.symm.trans hisr
        exact .inl ⟨e :: es, serving_fall hserving, hfit⟩
  · cases (halted_isr1 hhalted).symm.trans hisr
    exact .inr hhalted

theorem covered_isr2 (h : Covered x s) (answer : Stp) : Covered x (stepperIsr2 s answer) := by
  obtain ⟨hkeeps, hsame⟩ := stepperIsr2_keeps s answer
  rcases isr2_halts s answer with htasks | hhalted
  · rcases h with ⟨es, hserving, hfit⟩ | hhalted
    · refine .inl ⟨es, ⟨ahead_congr htasks hkeeps.nextTask hserving.ahead,
        hsame.bufs.trans hserving.bufs, fun q => ?_⟩, ?_⟩
      · rw [htasks]
        exact hserving.buf q
      · have hindex : (fun r : Ramp => r.index (stepperIsr2 s answer).dev) =
            fun r => r.index s.dev := by
          funext r
          cases r with
          | acc => exact hsame.accSteps
          | dec => exact hsame.decSteps
        rw [hindex]
        exact hfit
    · exact .inr (halted_isr2 hhalted answer)
  · exact .inr hhalted

/-- **Which queues read what was filled**: those whose schedules do. -/
theorem safe_iff_allFit (hrec : x.Recorded) (h : Serving x s es) :
    Safe x s ↔ x.AllFit es fun r => r.index s.dev := by
  refine ⟨allFit_of_safe hrec h, fun hfit => ?_⟩
  refine alongRun_of_inv (fun s i hs => covered_reads hs i) (fun s i calls s' hs hisr => ?_)
    (.inl ⟨es, h, hfit⟩)
  cases i with
  | isr1 => exact covered_isr1 hrec hs hisr
  | isr2 answer =>
    cases hisr
    exact covered_isr2 hs answer

/-! ## The schedule of a queue -/

theorem add_ofNat_zero (i : Stp) : i + UInt16.ofNat 0 = i := UInt16.add_zero i

theorem advance_unbuffered (h : (x.state.tasks e.1).buf = none) : x.advance e ix = ix := by
  funext r
  unfold Filling.advance
  rw [h]
  exact if_neg fun h => Bool.false_ne_true h.2

/-- A task without buffers reads nothing. -/
theorem allFit_unbuffered (h : (x.state.tasks p).buf = none) (phases : List StateT) :
    x.AllFit (phases.map (Prod.mk p) ++ es) ix ↔ x.AllFit es ix := by
  induction phases with
  | nil => exact Iff.rfl
  | cons phase phases ih =>
    show (_ ∧ x.AllFit (phases.map (Prod.mk p) ++ es) (x.advance (p, phase) ix)) ↔ _
    rw [advance_unbuffered h, ih]
    refine and_iff_right fun r b _ hb => ?_
    cases h.symm.trans hb

theorem allFit_runn (n : Nat) :
    x.AllFit ((List.replicate n .runn).map (Prod.mk p) ++ es) ix ↔ x.AllFit es ix := by
  induction n with
  | zero => exact Iff.rfl
  | succ n ih =>
    have hphase : ∀ r : Ramp, StateT.runn ≠ r.phase := by
      rintro (_ | _)
      · decide
      · decide
    have hsame : x.advance (p, .runn) ix = ix := by
      funext r
      exact if_neg fun h => hphase r h.1
    show (_ ∧ x.AllFit ((List.replicate n .runn).map (Prod.mk p) ++ es)
      (x.advance (p, .runn) ix)) ↔ _
    rw [hsame, ih]
    exact and_iff_right fun r b hr _ => absurd hr (hphase r)

theorem phase_injective {r r' : Ramp} (h : r.phase = r'.phase) : r = r' := by
  cases r with
  | acc =>
    cases r' with
    | acc => rfl
    | dec => cases h
  | dec =>
    cases r' with
    | acc => cases h
    | dec => rfl

/-- The edges of one ramp of a task read as many elements as they are. -/
theorem allFit_ramp (hb : (x.state.tasks p).buf = some b) (n : Nat) :
    x.AllFit ((List.replicate n r.phase).map (Prod.mk p) ++ es) ix ↔
      (∀ j < n, x.Fit r p b (ix r + UInt16.ofNat j).toNat) ∧
        x.AllFit es (Function.update ix r (ix r + UInt16.ofNat n)) := by
  induction n generalizing ix with
  | zero =>
    have hsame : Function.update ix r (ix r + UInt16.ofNat 0) = ix := by
      rw [add_ofNat_zero, Function.update_eq_self]
    rw [hsame]
    exact (and_iff_right fun j hj => absurd hj (Nat.not_lt_zero j)).symm
  | succ n ih =>
    have hadvance : x.advance (p, r.phase) ix = Function.update ix r (ix r + 1) := by
      funext r'
      unfold Filling.advance
      by_cases hr : r' = r
      · rw [hr, Function.update_self, hb]
        exact if_pos ⟨rfl, rfl⟩
      · rw [Function.update_of_ne hr]
        exact if_neg fun h => hr (phase_injective h.1).symm
    have hofNat : ∀ j, ix r + 1 + UInt16.ofNat j = ix r + UInt16.ofNat (j + 1) := by
      intro j
      rw [UInt16.ofNat_add, UInt16.add_assoc, UInt16.add_comm 1]
      rfl
    show ((∀ (r' : Ramp) (b' : Ptr), r.phase = r'.phase → _) ∧
      x.AllFit ((List.replicate n r.phase).map (Prod.mk p) ++ es) (x.advance (p, r.phase) ix)) ↔ _
    rw [hadvance, ih, Function.update_self, Function.update_idem, hofNat n, ← and_assoc]
    apply and_congr_left'
    simp only [hofNat]
    constructor
    · rintro ⟨hfirst, hrest⟩ (_ | j) hj
      · rw [add_ofNat_zero]
        exact hfirst r b rfl hb
      · exact hrest j (Nat.lt_of_succ_lt_succ hj)
    · intro hall
      refine ⟨fun r' b' hr hb' => ?_, fun j hj => hall (j + 1) (Nat.succ_lt_succ hj)⟩
      obtain rfl := phase_injective hr
      obtain rfl := Option.some.inj (hb.symm.trans hb')
      have hfirst := hall 0 (Nat.succ_pos n)
      rwa [add_ofNat_zero] at hfirst

theorem toNat_ofNat_of_below {n : Stp} {j : Nat} (h : j < n.toNat) :
    (UInt16.ofNat j).toNat = j :=
  UInt16.toNat_ofNat_of_lt' (Nat.lt_trans h n.toNat_lt)

/-- Indices that follow each other stay below their number only from zero on. -/
theorem below_iff {i n : Stp} (hn : 1 ≤ n.toNat) :
    (∀ j < n.toNat, (i + UInt16.ofNat j).toNat < n.toNat) ↔ i = 0 := by
  have hlt := n.toNat_lt
  constructor
  · intro hall
    by_contra hne
    have hpos : 1 ≤ i.toNat := by
      apply Nat.pos_of_ne_zero
      exact fun hzero => hne (UInt16.toNat_inj.mp hzero)
    have hfirst := hall 0 hn
    rw [add_ofNat_zero] at hfirst
    have hbelow : n.toNat - i.toNat < n.toNat := by omega
    have hlast := hall _ hbelow
    rw [UInt16.toNat_add, toNat_ofNat_of_below hbelow,
      Nat.add_sub_cancel' (Nat.le_of_lt hfirst), Nat.mod_eq_of_lt hlt] at hlast
    exact Nat.lt_irrefl _ hlast
  · rintro rfl j hj
    rw [UInt16.zero_add, toNat_ofNat_of_below hj]
    exact hj

/-- All elements of the ramp lie in the buffer at `b` and are written for the task at `p`. -/
def Filling.Owns (x : Filling) (r : Ramp) (p b : Ptr) : Prop :=
  ∀ i < (r.steps (x.state.tasks p)).toNat,
    i < (r.size (x.state.bufs b)).toNat ∧ x.written r b i = some p

theorem fit_iff {i : Stp} (hpos : 1 ≤ (r.steps (x.state.tasks p)).toNat) :
    (∀ j < (r.steps (x.state.tasks p)).toNat, x.Fit r p b (i + UInt16.ofNat j).toNat) ↔
      i = 0 ∧ x.Owns r p b := by
  constructor
  · intro hall
    obtain rfl : i = 0 := (below_iff hpos).mp fun j hj => (hall j hj).1
    refine ⟨rfl, fun j hj => ?_⟩
    have hfit := (hall j hj).2
    rwa [UInt16.zero_add, toNat_ofNat_of_below hj] at hfit
  · rintro ⟨rfl, howns⟩ j hj
    rw [UInt16.zero_add, toNat_ofNat_of_below hj]
    exact ⟨hj, howns j hj⟩

/-- The edges of a task with buffers. -/
theorem allFit_buffered (hb : (x.state.tasks p).buf = some b)
    (hpos : ∀ r : Ramp, 1 ≤ (r.steps (x.state.tasks p)).toNat) :
    x.AllFit ((x.state.tasks p).planned.map (Prod.mk p) ++ es) ix ↔
      (∀ r, ix r = 0 ∧ x.Owns r p b) ∧
        x.AllFit es fun r => ix r + r.steps (x.state.tasks p) := by
  have hne : Ramp.dec ≠ Ramp.acc := by decide
  have hacc : passes (x.state.tasks p).accSteps = (Ramp.acc.steps (x.state.tasks p)).toNat :=
    passes_of_pos (hpos .acc)
  have hdec : passes (x.state.tasks p).decSteps = (Ramp.dec.steps (x.state.tasks p)).toNat :=
    passes_of_pos (hpos .dec)
  have hend : Function.update (Function.update ix .acc (ix .acc + Ramp.acc.steps (x.state.tasks p)))
      .dec (ix .dec + Ramp.dec.steps (x.state.tasks p)) =
        fun r : Ramp => ix r + r.steps (x.state.tasks p) := by
    funext r
    cases r with
    | acc => rw [Function.update_of_ne hne.symm, Function.update_self]
    | dec => rw [Function.update_self]
  show x.AllFit (List.map (Prod.mk p) (List.replicate _ Ramp.acc.phase ++
    (List.replicate _ StateT.runn ++ List.replicate _ Ramp.dec.phase)) ++ es) ix ↔ _
  rw [List.map_append, List.map_append, List.append_assoc, List.append_assoc, allFit_ramp hb,
    allFit_runn, allFit_ramp hb, Function.update_of_ne hne, hacc, hdec, UInt16.ofNat_toNat,
    UInt16.ofNat_toNat, hend, fit_iff (hpos .acc), fit_iff (hpos .dec), ← and_assoc]
  apply and_congr_left'
  constructor
  · rintro ⟨hacc, hdec⟩ (_ | _)
    · exact hacc
    · exact hdec
  · exact fun hall => ⟨hall .acc, hall .dec⟩

/-- At most one task has buffers, with the indices at zero and its elements written. -/
def Filling.OneOwner (x : Filling) (ps : List Ptr) (ix : Ramp → Stp) : Prop :=
  ∀ p ∈ ps, ∀ b, (x.state.tasks p).buf = some b →
    (∀ r, ix r = 0 ∧ x.Owns r p b) ∧ ∀ q ∈ ps, (x.state.tasks q).buf.isSome → q = p

theorem allFit_waiting {ps : List Ptr} (hps : ps.Nodup)
    (hpos : ∀ p ∈ ps, ∀ r : Ramp, 1 ≤ (r.steps (x.state.tasks p)).toNat) :
    x.AllFit (waiting x.state.tasks ps) ix ↔ x.OneOwner ps ix := by
  induction ps generalizing ix with
  | nil => exact iff_of_true trivial fun p hp => absurd hp List.not_mem_nil
  | cons p ps ih =>
    obtain ⟨hp, hps'⟩ := List.nodup_cons.mp hps
    have ih' : ∀ ix, x.AllFit (waiting x.state.tasks ps) ix ↔ x.OneOwner ps ix :=
      fun _ => ih hps' fun q hq => hpos q (List.mem_cons_of_mem p hq)
    rw [waiting_cons]
    cases hb : (x.state.tasks p).buf with
    | none =>
      rw [allFit_unbuffered hb, ih']
      constructor
      · intro hone q hq b hqb
        rcases List.mem_cons.mp hq with rfl | hq
        · cases hb.symm.trans hqb
        · refine ⟨(hone q hq b hqb).1, fun q' hq' hsome => ?_⟩
          rcases List.mem_cons.mp hq' with rfl | hq'
          · rw [hb] at hsome
            cases hsome
          · exact (hone q hq b hqb).2 q' hq' hsome
      · intro hone q hq b hqb
        obtain ⟨howns, hsole⟩ := hone q (List.mem_cons_of_mem p hq) b hqb
        exact ⟨howns, fun q' hq' => hsole q' (List.mem_cons_of_mem p hq')⟩
    | some b =>
      have hpos' := hpos p (List.mem_cons_self ..)
      rw [allFit_buffered hb hpos', ih']
      constructor
      · rintro ⟨howns, hrest⟩
        -- behind the edges of a task with buffers the indices are no more at zero
        have hnone : ∀ q ∈ ps, ¬(x.state.tasks q).buf.isSome := by
          intro q hq hsome
          obtain ⟨c, hc⟩ := Option.isSome_iff_exists.mp hsome
          have hzero : ix .acc + Ramp.acc.steps (x.state.tasks p) = 0 :=
            ((hrest q hq c hc).1 .acc).1
          rw [(howns .acc).1, UInt16.zero_add] at hzero
          have := hpos' .acc
          rw [hzero] at this
          exact absurd this (Nat.not_succ_le_zero 0)
        intro q hq c hqc
        rcases List.mem_cons.mp hq with rfl | hq
        · obtain rfl := Option.some.inj (hb.symm.trans hqc)
          refine ⟨howns, fun q' hq' hsome => ?_⟩
          rcases List.mem_cons.mp hq' with rfl | hq'
          · rfl
          · exact absurd hsome (hnone q' hq')
        · exact absurd (by rw [hqc]; rfl) (hnone q hq)
      · intro hone
        obtain ⟨howns, hsole⟩ := hone p (List.mem_cons_self ..) b hb
        refine ⟨howns, fun q hq c hqc => ?_⟩
        obtain rfl := hsole q (List.mem_cons_of_mem p hq) (by rw [hqc]; rfl)
        exact absurd hq hp

end MyLibraries.Stepper
