import MyLibraries.OneWire.Word

/-!
# One pass of the ROM search

`WiredAnd` is what the search relies on: a reset selects all devices, a pair of reads
gives the conjunctions of the current bits of the selected devices and of their
complements, and a written bit deselects those that differ. `Walk` follows a pass down
the trie of the codes; from it, a pass reads the code of the leaf that its path visits and
leaves in `next` the decisions of the next visit (`pass_visits`).
-/

namespace MyLibraries.OneWire

open BitTrie

/-- The devices that take part, the bit they are at, and whether its complement is read
next. -/
structure Wire where
  selected : List Rom
  index : Nat
  complement : Bool

/-- A wired-AND bus with these codes; `view` is what the devices do. -/
structure WiredAnd {β : Type} (interface : Interface β) (codes : List Rom) (view : β → Wire) :
    Prop where
  reset : ∀ s, (interface.reset s).1 = .success ∧
    view (interface.reset s).2 = ⟨codes, 0, false⟩
  search : ∀ s, view (interface.write searchRom s) = view s
  readBit : ∀ s, ((interface.readBit s).1 ≠ 0 ↔
      ∀ r ∈ (view s).selected, Rom.bit r (view s).index = !(view s).complement) ∧
    view (interface.readBit s).2 = { view s with complement := !(view s).complement }
  writeBit : ∀ s v, view (interface.writeBit v s) =
    ⟨(view s).selected.filter fun r => Rom.bit r (view s).index = decide (v ≠ 0),
      (view s).index + 1, false⟩

/-- What a pass relies on after the reset. -/
structure Answers {β : Type} (interface : Interface β) (view : β → Wire) : Prop where
  search : ∀ s, view (interface.write searchRom s) = view s
  readBit : ∀ s, ((interface.readBit s).1 ≠ 0 ↔
      ∀ r ∈ (view s).selected, Rom.bit r (view s).index = !(view s).complement) ∧
    view (interface.readBit s).2 = { view s with complement := !(view s).complement }
  writeBit : ∀ s v, view (interface.writeBit v s) =
    ⟨(view s).selected.filter fun r => Rom.bit r (view s).index = decide (v ≠ 0),
      (view s).index + 1, false⟩

theorem WiredAnd.answers {β : Type} {interface : Interface β} {codes : List Rom}
    {view : β → Wire} (hw : WiredAnd interface codes view) : Answers interface view :=
  ⟨hw.search, hw.readBit, hw.writeBit⟩

variable {β : Type} {w : Nat} {interface : Interface β} {codes : List Rom} {view : β → Wire}
  {ds tk tk' : List Bool} {goal : Rom × List Bool} {i : Nat} {p : Pass β w} {t t' : Trie Rom}
  {path : BitVec w}

/-- A pass is at bit `i`, has taken the decisions `tk`, and is on its way to `goal` in the
trie `t` of the selected devices. -/
structure Walk (view : β → Wire) (ds : List Bool) (goal : Rom × List Bool) (i : Nat)
    (p : Pass β w) (tk : List Bool) (t : Trie Rom) : Prop where
  index : (view p.bus).index = i
  first : (view p.bus).complement = false
  splits : Splits Rom.bit (64 - i) i (view p.bus).selected t
  leaf : (t.visit (ds.drop tk.length)).1 = goal.1
  taken : tk ++ (t.visit (ds.drop tk.length)).2 = goal.2
  pos : p.pos = 1#w <<< tk.length
  next : Encodes p.next ((turn tk).getD [])
  agree : ∀ j, j < tk.length → tk.getD j false = ds.getD j false
  bits : ∀ r ∈ (view p.bus).selected, ∀ j, j < i → Rom.bit r j = Rom.bit p.row j

/-- A loop over `Fin n` keeps what each of its rounds keeps. -/
theorem foldl_rounds {α : Type} {n : Nat} (P : Nat → α → Prop) (f : α → Fin n → α) (a : α)
    (hstart : P 0 a) (hround : ∀ (k : Fin n) x, P k x → P (k + 1) (f x k)) :
    P n (Fin.foldl n f a) := by
  have hall : ∀ m (hm : m ≤ n), P m (Fin.foldl m (fun x k => f x (k.castLE hm)) a) := by
    intro m
    induction m with
    | zero =>
      intro _
      exact hstart
    | succ m ih =>
      intro hm
      rw [Fin.foldl_succ_last]
      exact hround ⟨m, hm⟩ _ (ih (Nat.le_of_succ_le hm))
  exact hall n (Nat.le_refl n)

/-! ## One bit -/

/-- Writing the bit `v` goes on in the trie of the devices that have it. -/
theorem Walk.advance (hw : Answers interface view) (h : Walk view ds goal i p tk t)
    {b c : Fin 8} (hi : i = 8 * b + c) (hrow : Rom.bit p.row i = false) {bit : UInt8} {bus : β}
    {next pos : BitVec w} (hbus : view bus = view p.bus)
    (hsplits : Splits Rom.bit (64 - (i + 1)) (i + 1)
      ((view p.bus).selected.filter fun r => Rom.bit r i = decide (bit ≠ 0)) t')
    (hleaf : (t'.visit (ds.drop tk'.length)).1 = goal.1)
    (htaken : tk' ++ (t'.visit (ds.drop tk'.length)).2 = goal.2)
    (hpos : pos = 1#w <<< tk'.length) (hnext : Encodes next ((turn tk').getD []))
    (hagree : ∀ j, j < tk'.length → tk'.getD j false = ds.getD j false) :
    Walk view ds goal (i + 1)
      { bus := interface.writeBit bit bus, next, pos,
        row := if bit ≠ 0 then p.row.set b (p.row[b] ||| (1 <<< UInt8.ofNat c)) else p.row }
      tk' t' := by
  have hview : view (interface.writeBit bit bus) =
      ⟨(view p.bus).selected.filter fun r => Rom.bit r i = decide (bit ≠ 0), i + 1, false⟩ := by
    rw [hw.writeBit, hbus, h.index]
  have hbit : ∀ j, Rom.bit
      (if bit ≠ 0 then p.row.set b (p.row[b] ||| (1 <<< UInt8.ofNat c)) else p.row) j =
        (Rom.bit p.row j || (decide (bit ≠ 0) && decide (j = i))) := by
    intro j
    split
    · rename_i hne
      rw [Rom.bit_set_or, decide_eq_true hne, Bool.true_and, hi]
    · rename_i hne
      rw [decide_eq_false hne, Bool.false_and, Bool.or_false]
  refine ⟨?_, ?_, ?_, hleaf, htaken, hpos, hnext, hagree, ?_⟩
  · rw [hview]
  · rw [hview]
  · rw [hview]
    exact hsplits
  · rw [hview]
    intro r hr j hj
    obtain ⟨hr, hri⟩ := List.mem_filter.mp hr
    rw [hbit]
    by_cases hji : j = i
    · subst hji
      rw [hrow, of_decide_eq_true hri]
      simp
    · rw [h.bits r hr j (by omega)]
      simp [hji]

theorem bitStep_row_of_ne (b c : Fin 8) {j : Nat} (hj : j ≠ 8 * b + c) :
    Rom.bit (bitStep interface path b p c).row j = Rom.bit p.row j := by
  show Rom.bit (if (decideBit path p.next p.pos _ _).1 ≠ 0 then _ else _) j = _
  split
  · rw [Rom.bit_set_or, decide_eq_false hj, Bool.or_false]
  · rfl

/-- The decisions that are left at the next collision. -/
theorem headD_drop (ds : List Bool) (k : Nat) : (ds.drop k).headD false = ds.getD k false := by
  rw [List.headD_eq_head?_getD, List.head?_drop, List.getD_eq_getElem?_getD]

theorem getD_append_decision (htk : ∀ j, j < tk.length → tk.getD j false = ds.getD j false)
    {d : Bool} (hd : ds.getD tk.length false = d) :
    ∀ j, j < (tk ++ [d]).length → (tk ++ [d]).getD j false = ds.getD j false := by
  intro j hj
  rw [List.length_append, List.length_singleton] at hj
  by_cases hlt : j < tk.length
  · rw [List.getD_append _ _ _ _ hlt, htk j hlt]
  · obtain rfl : j = tk.length := by omega
    rw [List.getD_append_right _ _ _ _ (Nat.le_refl _), Nat.sub_self, hd]
    rfl

/-- What is read and decided at bit `i`, from the devices there. -/
theorem decideBit_agree (path next pos : BitVec w) {sel : List Rom} {bit chk : UInt8} {v : Bool}
    (hall : ∀ r ∈ sel, Rom.bit r i = v) (hne : sel ≠ [])
    (hread : bit ≠ 0 ↔ ∀ r ∈ sel, Rom.bit r i = true)
    (hchk : chk ≠ 0 ↔ ∀ r ∈ sel, Rom.bit r i = false) :
    decideBit path next pos bit chk = (bit, next, pos) ∧ decide (bit ≠ 0) = v := by
  obtain ⟨r, hr⟩ := List.exists_mem_of_ne_nil sel hne
  cases v with
  | true =>
    have hbit := hread.mpr hall
    exact ⟨if_neg fun hzero => hbit hzero.1, decide_eq_true hbit⟩
  | false =>
    have hone := hchk.mpr hall
    refine ⟨if_neg fun hzero => hone hzero.2, decide_eq_false ?_⟩
    intro hbit
    have htrue := hread.mp hbit r hr
    rw [hall r hr] at htrue
    cases htrue

/-- At a collision the decision of the path is written, and `next` and `pos` follow it. -/
theorem decideBit_collision {next pos : BitVec w} {bit chk : UInt8} (hzero : bit = 0 ∧ chk = 0)
    (hk : tk.length < w) (hpath : Encodes path ds) (hpos : pos = 1#w <<< tk.length)
    (hnext : Encodes next ((turn tk).getD []))
    (hagree : ∀ j, j < tk.length → tk.getD j false = ds.getD j false) :
    decide ((decideBit path next pos bit chk).1 ≠ 0) = ds.getD tk.length false ∧
      (decideBit path next pos bit chk).2.2 = pos <<< 1 ∧
      Encodes (decideBit path next pos bit chk).2.1
        ((turn (tk ++ [ds.getD tk.length false])).getD []) := by
  have hpointer := pointer_and path hk
  rw [hpath tk.length hk, ← hpos] at hpointer
  rw [decideBit, if_pos hzero]
  cases hd : ds.getD tk.length false with
  | true =>
    rw [if_pos (hpointer.mpr hd), turn_append_true]
    exact ⟨rfl, rfl, hnext⟩
  | false =>
    have hclear : ¬ pos &&& path ≠ 0 := by
      intro hne
      have htrue := hpointer.mp hne
      rw [hd] at htrue
      cases htrue
    rw [if_neg hclear, turn_append_false, hzero.1, hpos]
    refine ⟨rfl, rfl, encodes_branch hk rfl ?_⟩
    intro j hj
    rw [hagree j hj, hpath j (by omega)]

theorem reads_collision {sel : List Rom} {bit chk : UInt8} {r₀ r₁ : Rom} (hr₀ : r₀ ∈ sel)
    (hr₁ : r₁ ∈ sel) (h₀ : Rom.bit r₀ i = false) (h₁ : Rom.bit r₁ i = true)
    (hread : bit ≠ 0 ↔ ∀ r ∈ sel, Rom.bit r i = true)
    (hchk : chk ≠ 0 ↔ ∀ r ∈ sel, Rom.bit r i = false) : bit = 0 ∧ chk = 0 := by
  constructor
  · by_contra hbit
    have htrue := hread.mp hbit r₀ hr₀
    rw [h₀] at htrue
    cases htrue
  · by_contra hone
    have hfalse := hchk.mp hone r₁ hr₁
    rw [h₁] at hfalse
    cases hfalse

/-- A pair of reads. -/
theorem Walk.reads (hw : Answers interface view) (h : Walk view ds goal i p tk t) :
    ((interface.readBit p.bus).1 ≠ 0 ↔ ∀ r ∈ (view p.bus).selected, Rom.bit r i = true) ∧
    ((interface.readBit (interface.readBit p.bus).2).1 ≠ 0 ↔
      ∀ r ∈ (view p.bus).selected, Rom.bit r i = false) ∧
    view (interface.readBit (interface.readBit p.bus).2).2 = view p.bus := by
  obtain ⟨hread, hview⟩ := hw.readBit p.bus
  obtain ⟨hread', hview'⟩ := hw.readBit (interface.readBit p.bus).2
  rw [hview] at hread' hview'
  rw [h.index, h.first] at hread
  simp only [h.index, h.first, Bool.not_false, Bool.not_true] at hread hread' hview'
  refine ⟨hread, hread', ?_⟩
  rw [hview']
  show _ = Wire.mk (view p.bus).selected (view p.bus).index (view p.bus).complement
  rw [h.index, h.first]

/-- At a collision the step goes on to the child that the path decides for. -/
theorem Walk.collided {t₀ t₁ : Trie Rom} (hw : Answers interface view)
    (h : Walk view ds goal i p tk (.two t₀ t₁)) (hpath : Encodes path ds)
    (hlen : goal.2.length ≤ w) {b c : Fin 8} (hi : i = 8 * b + c)
    (hrow : Rom.bit p.row i = false) {bit chk : UInt8} {bus : β} (hbus : view bus = view p.bus)
    (hread : bit ≠ 0 ↔ ∀ r ∈ (view p.bus).selected, Rom.bit r i = true)
    (hchk : chk ≠ 0 ↔ ∀ r ∈ (view p.bus).selected, Rom.bit r i = false) :
    ∃ tk' t', Walk view ds goal (i + 1)
      { bus := interface.writeBit (decideBit path p.next p.pos bit chk).1 bus
        next := (decideBit path p.next p.pos bit chk).2.1
        pos := (decideBit path p.next p.pos bit chk).2.2
        row := if (decideBit path p.next p.pos bit chk).1 ≠ 0 then
          p.row.set b (p.row[b] ||| (1 <<< UInt8.ofNat c)) else p.row } tk' t' := by
  obtain ⟨n, hn⟩ : ∃ n, 64 - i = n + 1 := ⟨63 - i, by omega⟩
  have hn' : 64 - (i + 1) = n := by omega
  have hsplits := h.splits
  rw [hn] at hsplits
  have hleaf := h.leaf
  have htaken := h.taken
  cases hsplits with
  | two h₀ h₁ =>
    obtain ⟨r₀, hr₀⟩ := List.exists_mem_of_ne_nil _ h₀.ne_nil
    obtain ⟨r₁, hr₁⟩ := List.exists_mem_of_ne_nil _ h₁.ne_nil
    rw [List.mem_filter, decide_eq_true_eq] at hr₀ hr₁
    have hzero := reads_collision hr₀.1 hr₁.1 hr₀.2 hr₁.2 hread hchk
    have htail : (ds.drop tk.length).tail = ds.drop (tk.length + 1) := List.tail_drop
    rw [visit_two, headD_drop, htail] at hleaf htaken
    have hk : tk.length < w := by
      have hgoal := congrArg List.length htaken
      rw [List.length_append, List.length_cons] at hgoal
      omega
    obtain ⟨hbit, hpos, hnext⟩ := decideBit_collision hzero hk hpath h.pos h.next h.agree
    have hagree := getD_append_decision h.agree rfl
    have hlength : (tk ++ [ds.getD tk.length false]).length = tk.length + 1 := by
      rw [List.length_append, List.length_singleton]
    generalize ds.getD tk.length false = d at hleaf htaken hbit hnext hagree hlength
    refine ⟨tk ++ [d], if d then t₁ else t₀,
      h.advance hw hi hrow hbus ?_ ?_ ?_ ?_ hnext hagree⟩
    · rw [hn', hbit]
      cases d with
      | true => exact h₁
      | false => exact h₀
    · rw [hlength]
      exact hleaf
    · rw [hlength, List.append_assoc]
      exact htaken
    · rw [hpos, h.pos, shift_succ, hlength]

/-- **One bit.** The step goes on to the child of the trie that the goal is in. -/
theorem Walk.step (hw : Answers interface view) (h : Walk view ds goal i p tk t)
    (hpath : Encodes path ds) (hlen : goal.2.length ≤ w) {b c : Fin 8} (hi : i = 8 * b + c)
    (hrow : Rom.bit p.row i = false) :
    ∃ tk' t', Walk view ds goal (i + 1) (bitStep interface path b p c) tk' t' := by
  obtain ⟨hread, hchk, hpair⟩ := h.reads hw
  obtain ⟨n, hn⟩ : ∃ n, 64 - i = n + 1 := ⟨63 - i, by omega⟩
  have hn' : 64 - (i + 1) = n := by omega
  have hsplits := h.splits
  rw [hn] at hsplits
  generalize hr₁ : (interface.readBit p.bus).1 = bit at hread
  generalize hr₂ : (interface.readBit (interface.readBit p.bus).2).1 = chk at hchk
  generalize hbus : (interface.readBit (interface.readBit p.bus).2).2 = bus at hpair
  have hstep : bitStep interface path b p c =
      { bus := interface.writeBit (decideBit path p.next p.pos bit chk).1 bus
        next := (decideBit path p.next p.pos bit chk).2.1
        pos := (decideBit path p.next p.pos bit chk).2.2
        row := if (decideBit path p.next p.pos bit chk).1 ≠ 0 then
          p.row.set b (p.row[b] ||| (1 <<< UInt8.ofNat c)) else p.row } := by
    subst hr₁ hr₂ hbus
    rfl
  rw [hstep]
  have hleaf := h.leaf
  have htaken := h.taken
  cases t with
  | leaf r => cases hsplits
  | one t' =>
    cases hsplits with
    | one v hall hne hsub =>
      obtain ⟨hdecide, hv⟩ := decideBit_agree path p.next p.pos
        hall hne hread hchk
      rw [hdecide]
      refine ⟨tk, t', h.advance hw hi hrow hpair ?_ hleaf htaken h.pos h.next h.agree⟩
      rw [hn', hv, List.filter_eq_self.mpr (by simpa using hall)]
      exact hsub
  | two t₀ t₁ => exact h.collided hw hpath hlen hi hrow hpair hread hchk

/-! ## One pass -/

/-- One byte. -/
theorem Walk.byte (hw : Answers interface view) (b : Fin 8)
    (h : Walk view ds goal (8 * b) p tk t) (hpath : Encodes path ds) (hlen : goal.2.length ≤ w) :
    ∃ tk' t', Walk view ds goal (8 * (b + 1)) (byteStep interface path p b) tk' t' := by
  have hrounds := foldl_rounds (n := 8)
    (fun c q => (∃ tk' t', Walk view ds goal (8 * b + c) q tk' t') ∧
      ∀ j, 8 * b + c ≤ j → j < 8 * b + 8 → Rom.bit q.row j = false)
    (bitStep interface path b) { p with row := p.row.set b 0 } ?_ ?_
  · obtain ⟨⟨tk', t', hwalk⟩, -⟩ := hrounds
    exact ⟨tk', t', hwalk⟩
  · refine ⟨⟨tk, t, h.index, h.first, h.splits, h.leaf, h.taken, h.pos, h.next, h.agree, ?_⟩, ?_⟩
    · intro r hr j hj
      have hne : ¬ j / 8 = b := by omega
      rw [Rom.bit_set, if_neg hne]
      exact h.bits r hr j hj
    · intro j hj hj'
      have heq : j / 8 = b := by omega
      rw [Rom.bit_set, if_pos heq, UInt8.toNat_zero, Nat.zero_testBit]
  · rintro c q ⟨⟨tk', t', hwalk⟩, hclear⟩
    refine ⟨hwalk.step hw hpath hlen rfl (hclear _ (Nat.le_refl _) (by omega)), ?_⟩
    intro j hj hj'
    rw [bitStep_row_of_ne b c (by omega)]
    exact hclear j (by omega) hj'

/-- **One pass.** It reads the leaf that its path visits, and leaves in `next` the turned
decisions. -/
theorem pass_visits (hw : Answers interface view) (ht : Splits Rom.bit 64 0 codes t)
    (hpath : Encodes path ds) (hlen : (t.visit ds).2.length ≤ w) (row : Rom) {bus : β}
    (hbus : view bus = ⟨codes, 0, false⟩) :
    (pass interface path row bus).row = (t.visit ds).1 ∧
      Encodes (pass interface path row bus).next ((turn (t.visit ds).2).getD []) := by
  have hsearch : view (interface.write searchRom bus) = ⟨codes, 0, false⟩ := by
    rw [hw.search, hbus]
  have hrounds := foldl_rounds (n := 8)
    (fun b q => ∃ tk' t', Walk view ds (t.visit ds) (8 * b) q tk' t')
    (byteStep interface path)
    { bus := interface.write searchRom bus, next := 0, pos := 1, row } ?_ ?_
  · obtain ⟨tk, t', hwalk⟩ := hrounds
    have hsplits := hwalk.splits
    have hleaf := hwalk.leaf
    have htaken := hwalk.taken
    have hbits := hwalk.bits
    generalize (view (Fin.foldl 8 (byteStep interface path) _).bus).selected = sel
      at hsplits hbits
    cases hsplits with
    | leaf i r =>
      rw [Trie.visit, List.append_nil] at htaken
      refine ⟨?_, ?_⟩
      · rw [← hleaf]
        refine Rom.ext_bit ?_
        intro j hj
        exact (hbits r List.mem_cons_self j hj).symm
      · rw [← htaken]
        exact hwalk.next
  · refine ⟨[], t, ?_, ?_, ?_, rfl, rfl, ?_, encodes_zero, ?_, ?_⟩
    · rw [hsearch]
    · rw [hsearch]
    · rw [hsearch]
      exact ht
    · exact (BitVec.shiftLeft_zero _).symm
    · intro j hj
      exact absurd hj (Nat.not_lt_zero j)
    · intro r _ j hj
      exact absurd hj (Nat.not_lt_zero j)
  · rintro b q ⟨tk, t', hwalk⟩
    exact hwalk.byte hw b hpath hlen

end MyLibraries.OneWire
