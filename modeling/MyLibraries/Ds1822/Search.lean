import MyLibraries.Ds1822.Model
import MyLibraries.OneWire.Search

/-!
# Repeated searches

A call stores the code of each pass in the element `cnt_num`, which goes on from where the
last call has left it. So a search that succeeds stores the codes from there on
(`searchRom_success`), and does what it should exactly when `cnt_num` is 0
(`searchRom_agrees_iff`).
-/

namespace MyLibraries.Ds1822

open OneWire BitTrie

variable {ι β : Type} {w : Nat} {wires : Wires ι β} {bus : ι} {codes rs : List Rom}
  {view : β → Wire} {sensors : Nat → Sensor ι} {ds : List Bool} {t : Trie Rom} {path : BitVec w}

/-- A wired-AND bus with these codes, whose reset may fail. -/
structure SearchBus (wires : Wires ι β) (bus : ι) (codes : List Rom) (view : β → Wire) :
    Prop where
  reset : ∀ s, (wires.reset bus s).1 = .success →
    view (wires.reset bus s).2 = ⟨codes, 0, false⟩
  answers : Answers (wires.line bus) view

/-- The codes in the elements from 0 on, no other element written, and their number. -/
structure Agrees (codes : List Rom) (sensors : Nat → Sensor ι) (out : Outcome ι β) : Prop where
  stored : ((List.range codes.length).map fun i => (out.sensors i).sn).Perm codes
  others : ∀ i, codes.length ≤ i → out.sensors i = sensors i
  found : out.devicesFound.toNat = codes.length

/-- The element of a pass that has read `r`. -/
def store (bus : ι) (sensors : Nat → Sensor ι) (cntNum : UInt8) (r : Rom) : Nat → Sensor ι :=
  Function.update sensors cntNum.toNat ⟨bus, r, defaultResolution⟩

/-- The elements after passes that have read `rs`. -/
def storeAll (bus : ι) : (Nat → Sensor ι) → UInt8 → List Rom → Nat → Sensor ι
  | sensors, _, [] => sensors
  | sensors, cntNum, r :: rs => storeAll bus (store bus sensors cntNum r) (cntNum + 1) rs

/-! ## The elements -/

theorem storeAll_of_lt {cntNum : UInt8} (hfit : cntNum.toNat + rs.length ≤ 256) {i : Nat}
    (hi : i < cntNum.toNat) : storeAll bus sensors cntNum rs i = sensors i := by
  induction rs generalizing sensors cntNum with
  | nil => rfl
  | cons r rs ih =>
    rw [List.length_cons] at hfit
    cases rs with
    | nil => exact Function.update_of_ne (by omega) _ _
    | cons r' rs =>
      rw [List.length_cons] at hfit ih
      have hcnt : (cntNum + 1).toNat = cntNum.toNat + 1 := by
        rw [UInt8.toNat_add, UInt8.toNat_one, Nat.mod_eq_of_lt (by omega)]
      rw [storeAll, ih (by omega) (by omega)]
      exact Function.update_of_ne (by omega) _ _

/-- Without an overflow of `cnt_num`, the codes stand in consecutive elements. -/
theorem storeAll_eq {cntNum : UInt8} (hfit : cntNum.toNat + rs.length ≤ 256) (k : Nat) :
    storeAll bus sensors cntNum rs (cntNum.toNat + k) =
      (rs[k]?.map fun r => ⟨bus, r, defaultResolution⟩).getD (sensors (cntNum.toNat + k)) := by
  induction rs generalizing sensors cntNum k with
  | nil => rfl
  | cons r rs ih =>
    rw [List.length_cons] at hfit
    cases rs with
    | nil =>
      cases k with
      | zero => exact Function.update_self _ _ _
      | succ k => exact Function.update_of_ne (by omega) _ _
    | cons r' rs =>
      have hcnt : (cntNum + 1).toNat = cntNum.toNat + 1 := by
        rw [List.length_cons] at hfit
        rw [UInt8.toNat_add, UInt8.toNat_one, Nat.mod_eq_of_lt (by omega)]
      rw [storeAll]
      cases k with
      | zero =>
        rw [storeAll_of_lt (by omega) (by omega)]
        exact Function.update_self _ _ _
      | succ k =>
        have hnext : storeAll bus (store bus sensors cntNum r) (cntNum + 1) (r' :: rs)
            ((cntNum + 1).toNat + k) = _ := ih (by omega) k
        rw [hcnt, Nat.add_assoc, Nat.add_comm 1 k] at hnext
        rw [hnext, store, Function.update_of_ne (by omega)]
        rfl

/-! ## The loop -/

/-- A reset that fails ends the call. -/
theorem searchLoop_abort {s : β} (hreset : (wires.reset bus s).1 ≠ .success)
    (sensors : Nat → Sensor ι) (cntNum : UInt8) (fuel : Nat) :
    searchLoop wires bus (fuel + 1) path sensors cntNum s =
      some ((wires.reset bus s).1, Function.update sensors cntNum.toNat
        { sensors cntNum.toNat with oneWireBus := bus, resolution := defaultResolution },
        cntNum, (wires.reset bus s).2) := by
  rw [searchLoop]
  exact if_pos hreset

/-- One pass of the loop whose reset succeeds, in terms of the leaf that it visits. -/
theorem searchLoop_succ (hw : SearchBus wires bus codes view) (ht : Splits Rom.bit 64 0 codes t)
    (hlen : (t.visit ds).2.length ≤ w) (hpath : Encodes path ds) {s : β}
    (hreset : (wires.reset bus s).1 = .success) (sensors : Nat → Sensor ι) (cntNum : UInt8)
    (fuel : Nat) :
    ∃ next s', Encodes next ((turn (t.visit ds).2).getD []) ∧
      searchLoop wires bus (fuel + 1) path sensors cntNum s =
        if next ≠ (0 : BitVec w) then
          searchLoop wires bus fuel next (store bus sensors cntNum (t.visit ds).1) (cntNum + 1) s'
        else some (.success, store bus sensors cntNum (t.visit ds).1, cntNum + 1, s') := by
  obtain ⟨hrow, hnext⟩ := pass_visits hw.answers ht hpath hlen (sensors cntNum.toNat).sn
    (hw.reset s hreset)
  refine ⟨_, (pass (wires.line bus) path (sensors cntNum.toNat).sn (wires.reset bus s).2).bus,
    hnext, ?_⟩
  rw [searchLoop]
  simp only [hreset, ne_eq, not_true_eq_false, if_false, hrow, store]

/-- **The loop.** From the decisions `ds` on it ends, and if it ends well, it has stored the
leaves that were left. -/
theorem searchLoop_visits (hw : SearchBus wires bus codes view)
    (ht : Splits Rom.bit 64 0 codes t) (hlen : ∀ ds, (t.visit ds).2.length ≤ w)
    (hv : Visits t ds rs) (hpath : Encodes path ds) (sensors : Nat → Sensor ι) (cntNum : UInt8)
    (s : β) (fuel : Nat) (hfuel : rs.length ≤ fuel) :
    ∃ error sensors' cntNum' s',
      searchLoop wires bus fuel path sensors cntNum s = some (error, sensors', cntNum', s') ∧
      (error = .success → sensors' = storeAll bus sensors cntNum rs ∧
        cntNum' = cntNum + UInt8.ofNat rs.length) := by
  induction hv generalizing path sensors cntNum s fuel with
  | @last ds hlast =>
    obtain ⟨fuel, rfl⟩ : ∃ n, fuel = n + 1 := Nat.exists_eq_add_of_le' hfuel
    by_cases hreset : (wires.reset bus s).1 = .success
    · obtain ⟨next, s', hnext, hloop⟩ :=
        searchLoop_succ hw ht (hlen ds) hpath hreset sensors cntNum fuel
      rw [hlast] at hnext
      rw [if_neg (not_not_intro (encodes_nil hnext))] at hloop
      exact ⟨_, _, _, _, hloop, fun _ => ⟨rfl, rfl⟩⟩
    · exact ⟨_, _, _, _, searchLoop_abort hreset sensors cntNum fuel, fun h => absurd h hreset⟩
  | @next ds ds' rs hturn hrest ih =>
    rw [List.length_cons] at hfuel
    obtain ⟨fuel, rfl⟩ : ∃ n, fuel = n + 1 := ⟨fuel - 1, by omega⟩
    by_cases hreset : (wires.reset bus s).1 = .success
    · obtain ⟨next, s', hnext, hloop⟩ :=
        searchLoop_succ hw ht (hlen ds) hpath hreset sensors cntNum fuel
      rw [hturn, Option.getD_some] at hnext
      obtain ⟨hmem, hshort⟩ := true_mem_turn hturn
      rw [if_pos (encodes_ne_zero hnext hmem (hshort.trans (hlen ds)))] at hloop
      obtain ⟨error, sensors', cntNum', s'', hrun, hstored⟩ :=
        ih hnext (store bus sensors cntNum (t.visit ds).1) (cntNum + 1) s' fuel (by omega)
      refine ⟨error, sensors', cntNum', s'', hloop.trans hrun, fun hsuccess => ?_⟩
      obtain ⟨hsensors, hcount⟩ := hstored hsuccess
      refine ⟨hsensors, ?_⟩
      rw [hcount, List.length_cons, UInt8.ofNat_add, UInt8.add_assoc,
        UInt8.add_comm 1 (UInt8.ofNat _)]
      rfl
    · exact ⟨_, _, _, _, searchLoop_abort hreset sensors cntNum fuel, fun h => absurd h hreset⟩

/-- **A call** ends, and if it ends well, it has stored the codes from `cnt_num` on. -/
theorem searchRom_success (hw : SearchBus wires bus codes view) (hdistinct : codes.Nodup)
    (hmin : 1 ≤ codes.length) (hword : codes.length - 1 ≤ w) (sensors : Nat → Sensor ι)
    (devicesFound cntNum : UInt8) (s : β) (fuel : Nat) (hfuel : codes.length ≤ fuel) :
    ∃ out, searchRom wires w fuel sensors bus devicesFound cntNum s = some out ∧
      (out.error = .success → ∃ rs : List Rom, rs.Perm codes ∧
        out.sensors = storeAll bus sensors cntNum rs ∧
        out.cntNum = cntNum + UInt8.ofNat codes.length ∧ out.devicesFound = out.cntNum) := by
  obtain ⟨t, ht, hlen⟩ := codes_trie hdistinct hmin hword
  have hperm := ht.perm
  obtain ⟨error, sensors', cntNum', s', hloop, hstored⟩ :=
    searchLoop_visits hw ht hlen (visits_leaves t) (encodes_zero (w := w)) sensors cntNum s fuel
      (hperm.length_eq ▸ hfuel)
  rw [hperm.length_eq] at hstored
  refine ⟨⟨error, sensors', if error = .success then cntNum' else devicesFound, cntNum', s'⟩,
    ?_, fun hsuccess => ?_⟩
  · rw [searchRom, hloop]
    rfl
  · obtain ⟨hsensors, hcount⟩ := hstored hsuccess
    exact ⟨t.leaves, hperm, hsensors, hcount, if_pos hsuccess⟩

/-! ## Agreement -/

theorem agrees_storeAll {out : Outcome ι β} (hperm : rs.Perm codes)
    (hlong : codes.length ≤ 255) (hsensors : out.sensors = storeAll bus sensors 0 rs)
    (hfound : out.devicesFound = UInt8.ofNat codes.length) : Agrees codes sensors out := by
  have hlen := hperm.length_eq
  have hall : ∀ k, out.sensors k =
      (rs[k]?.map fun r => ⟨bus, r, defaultResolution⟩).getD (sensors k) := by
    intro k
    have hk : storeAll bus sensors 0 rs ((0 : UInt8).toNat + k) = _ :=
      storeAll_eq (by rw [UInt8.toNat_zero]; omega) k
    rw [UInt8.toNat_zero, Nat.zero_add] at hk
    rw [hsensors, hk]
  refine ⟨?_, ?_, ?_⟩
  · have hmap : (List.range codes.length).map (fun i => (out.sensors i).sn) = rs := by
      rw [← hlen]
      apply List.ext_getElem
      · simp
      · intro k hk hk'
        rw [List.getElem_map, List.getElem_range, hall, List.getElem?_eq_getElem hk']
        rfl
    rw [hmap]
    exact hperm
  · intro i hi
    rw [hall, List.getElem?_eq_none (by omega)]
    rfl
  · rw [hfound, UInt8.toNat_ofNat_of_lt' (by show codes.length < 256; omega)]

/-- **When repeated searches agree**: after any earlier calls, a call that succeeds does what
it should exactly when `cnt_num` is 0 before it, and it moves `cnt_num` on by the number of
the codes. `unsigned long` has at most 64 bits. -/
theorem searchRom_agrees_iff (hw : SearchBus wires bus codes view) (hdistinct : codes.Nodup)
    (hmin : 1 ≤ codes.length) (hword : codes.length - 1 ≤ w) (hlong : w ≤ 64) {cntNum : UInt8}
    {s : β} (hist : Earlier wires w cntNum s) (sensors : Nat → Sensor ι) (devicesFound : UInt8)
    (fuel : Nat) (hfuel : codes.length ≤ fuel) :
    ∃ out, searchRom wires w fuel sensors bus devicesFound cntNum s = some out ∧
      Earlier wires w out.cntNum out.state ∧
      (out.error = .success → out.cntNum = cntNum + UInt8.ofNat codes.length ∧
        (Agrees codes sensors out ↔ cntNum = 0)) := by
  obtain ⟨out, hout, hsuccess⟩ :=
    searchRom_success hw hdistinct hmin hword sensors devicesFound cntNum s fuel hfuel
  refine ⟨out, hout, hist.call hout, fun h => ?_⟩
  obtain ⟨rs, hperm, hsensors, hcount, hfound⟩ := hsuccess h
  refine ⟨hcount, ?_, ?_⟩
  · intro hagrees
    have hnum := hagrees.found
    rw [hfound, hcount, UInt8.toNat_add, UInt8.toNat_ofNat_of_lt' (by
      show codes.length < 256; omega)] at hnum
    apply UInt8.toNat_inj.mp
    rw [UInt8.toNat_zero]
    have := cntNum.toNat_lt
    omega
  · rintro rfl
    apply agrees_storeAll hperm (by omega) hsensors
    rw [hfound, hcount, UInt8.zero_add]

/-- One bus, and the devices on it. -/
def single (codes : List Rom) : Wires Unit Wire where
  reset _ _ := (.success, ⟨codes, 0, false⟩)
  writeByte _ _ s := s
  writeBit _ := (wire codes).writeBit
  readBit _ := (wire codes).readBit

theorem single_searchBus (codes : List Rom) : SearchBus (single codes) () codes id := by
  refine ⟨fun _ _ => rfl, ?_⟩
  have hanswers := (wire_wiredAnd codes).answers
  exact ⟨hanswers.search, hanswers.readBit, hanswers.writeBit⟩

/-- An array of sensors that nothing has been written to. -/
def blank : Nat → Sensor Unit := fun _ => ⟨(), Vector.replicate 8 0, .res9bit⟩

/-- The first call of a program, with two devices on the bus. -/
theorem searchRom_agrees_first : ∃ out,
    searchRom (single [#v[1, 0, 0, 0, 0, 0, 0, 0], #v[2, 0, 0, 0, 0, 0, 0, 0]]) 32 2 blank () 0 0
      ⟨[], 0, false⟩ = some out ∧
    out.error = .success ∧ out.cntNum = 2 ∧
    Agrees [#v[1, 0, 0, 0, 0, 0, 0, 0], #v[2, 0, 0, 0, 0, 0, 0, 0]] blank out := by
  obtain ⟨out, hout, -, hsuccess⟩ :=
    searchRom_agrees_iff
      (single_searchBus [#v[1, 0, 0, 0, 0, 0, 0, 0], #v[2, 0, 0, 0, 0, 0, 0, 0]])
      (by decide) (by decide) (w := 32) (by decide) (by decide)
      (.start ⟨[], 0, false⟩) blank 0 2 (Nat.le_refl 2)
  have herror : out.error = .success := by
    have hrun : (searchRom (single [#v[1, 0, 0, 0, 0, 0, 0, 0], #v[2, 0, 0, 0, 0, 0, 0, 0]]) 32 2
      blank () 0 0 ⟨[], 0, false⟩).map (·.error) = some .success := by decide +kernel
    rw [hout] at hrun
    exact Option.some.inj hrun
  obtain ⟨hcount, hagrees⟩ := hsuccess herror
  exact ⟨out, hout, herror, hcount, hagrees.mpr rfl⟩

/-- The second call of a program, with one device on the bus: it stores the code in the
element 1 and says that there are two. -/
theorem searchRom_second_disagrees : ∃ first second,
    searchRom (single [#v[1, 0, 0, 0, 0, 0, 0, 0]]) 32 1 blank () 0 0 ⟨[], 0, false⟩ =
      some first ∧ first.error = .success ∧
    searchRom (single [#v[1, 0, 0, 0, 0, 0, 0, 0]]) 32 1 blank () 0 first.cntNum first.state =
      some second ∧ second.error = .success ∧ second.devicesFound = 2 ∧
    ¬ Agrees [#v[1, 0, 0, 0, 0, 0, 0, 0]] blank second := by
  have hcall := searchRom_success (w := 32) (single_searchBus [#v[1, 0, 0, 0, 0, 0, 0, 0]])
    (by decide) (by decide) (by decide) blank 0
  obtain ⟨first, hfirst, -⟩ := hcall 0 ⟨[], 0, false⟩ 1 (Nat.le_refl 1)
  obtain ⟨second, hsecond, -⟩ := hcall first.cntNum first.state 1 (Nat.le_refl 1)
  have hruns : (searchRom (single [#v[1, 0, 0, 0, 0, 0, 0, 0]]) 32 1 blank () 0 0
      ⟨[], 0, false⟩).bind (fun first => (searchRom (single [#v[1, 0, 0, 0, 0, 0, 0, 0]]) 32 1
        blank () 0 first.cntNum first.state).bind fun second =>
          some (first.error, second.error, second.devicesFound)) =
        some (.success, .success, 2) := by decide +kernel
  rw [hfirst, Option.bind_some, hsecond, Option.bind_some] at hruns
  simp only [Option.some.injEq, Prod.mk.injEq] at hruns
  obtain ⟨herror, herror', hfound⟩ := hruns
  refine ⟨first, second, hfirst, herror, hsecond, herror', hfound, ?_⟩
  intro hagrees
  have hone := hagrees.found
  rw [hfound] at hone
  cases hone

end MyLibraries.Ds1822
