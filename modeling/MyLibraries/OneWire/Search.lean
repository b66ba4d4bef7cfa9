import MyLibraries.OneWire.Pass

/-!
# The ROM search is complete

The loop over the passes visits the leaves of the trie of the codes: `path` holds the
decisions of the next visit, which is 0 only when there is none. A visit has fewer
collisions than there are codes, so the decisions fit the word. `rom_search` says that
`SearchSensors` finds every code, once, in as many passes as there are codes.
-/

namespace MyLibraries.OneWire

open BitTrie

variable {β : Type} {w : Nat} {interface : Interface β} {codes rs : List Rom}
  {view : β → Wire} {ds : List Bool} {t : Trie Rom} {path : BitVec w} {maxDevices : Nat}

theorem take_set_append (rows : List Rom) (r : Rom) (rs : List Rom) {c : Nat}
    (hc : c < rows.length) :
    (rows.set c r).take (c + 1) ++ rs ++ (rows.set c r).drop (c + 1 + rs.length) =
      rows.take c ++ (r :: rs) ++ rows.drop (c + (r :: rs).length) := by
  have htake : (rows.set c r).take (c + 1) = rows.take c ++ [r] := by
    rw [List.take_add_one, List.take_set_of_le (Nat.le_refl c), List.getElem?_set_self hc]
    rfl
  have hdrop : (rows.set c r).drop (c + 1 + rs.length) = rows.drop (c + (r :: rs).length) := by
    rw [List.drop_set_of_lt (by omega), List.length_cons]
    congr 1
    omega
  rw [htake, hdrop, List.append_assoc, List.append_assoc, List.append_assoc]
  rfl

/-- One pass of the loop, in terms of the leaf that it visits. -/
theorem searchLoop_succ (hw : WiredAnd interface codes view)
    (ht : Splits Rom.bit 64 0 codes t) (hlen : (t.visit ds).2.length ≤ w)
    (hpath : Encodes path ds) (bus : β) (serialNumber : Vector Rom maxDevices) (cntNum : UInt8)
    (hroom : cntNum.toNat < maxDevices) (fuel : Nat) :
    ∃ next bus', Encodes next ((turn (t.visit ds).2).getD []) ∧
      searchLoop interface maxDevices (fuel + 1) path serialNumber cntNum bus =
        if (cntNum + 1).toNat = maxDevices ∨ next = (0 : BitVec w) then
          some ⟨none, serialNumber.set cntNum.toNat (t.visit ds).1, cntNum + 1, bus'⟩
        else
          searchLoop interface maxDevices fuel next
            (serialNumber.set cntNum.toNat (t.visit ds).1) (cntNum + 1) bus' := by
  obtain ⟨hsuccess, hview⟩ := hw.reset bus
  obtain ⟨hrow, hnext⟩ := pass_visits hw.answers ht hpath hlen serialNumber[cntNum.toNat] hview
  refine ⟨_, (pass interface path serialNumber[cntNum.toNat] (interface.reset bus).2).bus,
    hnext, ?_⟩
  rw [searchLoop]
  simp only [hsuccess, ne_eq, not_true_eq_false, if_false, hroom, dif_pos, hrow]
  by_cases hlast : (cntNum + 1).toNat = maxDevices
  · rw [if_pos hlast, if_pos (Or.inl hlast)]
  · rw [if_neg hlast]
    by_cases hzero :
        (pass interface path serialNumber[cntNum.toNat] (interface.reset bus).2).next = 0
    · rw [if_neg (not_not_intro hzero), if_pos (Or.inr hzero)]
    · rw [if_pos hzero, if_neg (not_or_intro hlast hzero)]

/-- **The loop.** From the decisions `ds` on it takes as many passes as there are leaves
left, and fills as many rows. -/
theorem searchLoop_visits (hw : WiredAnd interface codes view)
    (ht : Splits Rom.bit 64 0 codes t) (hlen : ∀ ds, (t.visit ds).2.length ≤ w)
    (hmax : maxDevices ≤ 255) (hv : Visits t ds rs) (hpath : Encodes path ds) (bus : β)
    (serialNumber : Vector Rom maxDevices) (cntNum : UInt8)
    (hroom : cntNum.toNat + rs.length ≤ maxDevices) (fuel : Nat) :
    (fuel < rs.length → searchLoop interface maxDevices fuel path serialNumber cntNum bus = none) ∧
    (rs.length ≤ fuel → ∃ found,
      searchLoop interface maxDevices fuel path serialNumber cntNum bus = some found ∧
      found.early = none ∧ found.cntNum.toNat = cntNum.toNat + rs.length ∧
      found.serialNumber.toList = serialNumber.toList.take cntNum.toNat ++ rs ++
        serialNumber.toList.drop (cntNum.toNat + rs.length)) := by
  induction hv generalizing path bus serialNumber cntNum fuel with
  | @last ds hlast =>
    rw [List.length_singleton] at hroom ⊢
    refine ⟨fun hfuel => ?_, fun hfuel => ?_⟩
    · obtain rfl : fuel = 0 := by omega
      rfl
    · obtain ⟨fuel, rfl⟩ : ∃ n, fuel = n + 1 := ⟨fuel - 1, by omega⟩
      obtain ⟨next, bus', hnext, hloop⟩ := searchLoop_succ hw ht (hlen ds) hpath bus serialNumber
        cntNum (by omega) fuel
      rw [hlast] at hnext
      rw [if_pos (Or.inr (encodes_nil hnext))] at hloop
      refine ⟨_, hloop, rfl, ?_, ?_⟩
      · show (cntNum + 1).toNat = _
        rw [UInt8.toNat_add, UInt8.toNat_one, Nat.mod_eq_of_lt (by omega)]
      · have hrow := take_set_append serialNumber.toList (t.visit ds).1 []
          (c := cntNum.toNat) (by rw [Vector.length_toList]; omega)
        rw [List.append_nil, List.length_nil, Nat.add_zero, List.take_append_drop] at hrow
        show (serialNumber.set cntNum.toNat (t.visit ds).1).toList = _
        rw [Vector.toList_set]
        exact hrow
  | @next ds ds' rs hturn hrest ih =>
    rw [List.length_cons] at hroom ⊢
    have hcnt : (cntNum + 1).toNat = cntNum.toNat + 1 := by
      rw [UInt8.toNat_add, UInt8.toNat_one, Nat.mod_eq_of_lt (by omega)]
    have hpos : 0 < rs.length := by
      cases hrest with
      | last _ => exact Nat.one_pos
      | next _ _ => exact Nat.succ_pos _
    cases fuel with
    | zero => exact ⟨fun _ => rfl, fun hfuel => absurd hfuel (by omega)⟩
    | succ fuel =>
      obtain ⟨next, bus', hnext, hloop⟩ := searchLoop_succ hw ht (hlen ds) hpath bus serialNumber
        cntNum (by omega) fuel
      rw [hturn, Option.getD_some] at hnext
      obtain ⟨hmem, hshort⟩ := true_mem_turn hturn
      have hne := encodes_ne_zero hnext hmem (hshort.trans (hlen ds))
      rw [if_neg (not_or_intro (by omega) hne)] at hloop
      obtain ⟨hnone, hsome⟩ := ih hnext bus' (serialNumber.set cntNum.toNat (t.visit ds).1)
        (cntNum + 1) (by omega) fuel
      rw [hloop]
      refine ⟨fun hfuel => hnone (by omega), fun hfuel => ?_⟩
      obtain ⟨found, hfound, hearly, hcount, hrows⟩ := hsome (by omega)
      refine ⟨found, hfound, hearly, by omega, ?_⟩
      rw [hrows, hcnt, Vector.toList_set]
      exact take_set_append _ _ _ (by rw [Vector.length_toList]; omega)

/-- The trie of the codes, and that the decisions of its visits fit the word. -/
theorem codes_trie (hdistinct : codes.Nodup) (hmin : 1 ≤ codes.length)
    (hword : codes.length - 1 ≤ w) :
    ∃ t, Splits Rom.bit 64 0 codes t ∧ ∀ ds, (t.visit ds).2.length ≤ w := by
  obtain ⟨t, ht⟩ : ∃ t, Splits Rom.bit 64 0 codes t := by
    refine splits_exists (List.length_pos_iff.mp hmin) hdistinct ?_
    intro r _ r' _ hbits
    exact Rom.ext_bit fun j hj => hbits j (Nat.zero_le j) (by omega)
  refine ⟨t, ht, fun ds => ?_⟩
  have hvisit := visit_length t ds
  rw [ht.perm.length_eq] at hvisit
  omega

/-- **The ROM search.** On a wired-AND bus with distinct codes, at least one and not more
than `max_devices`, which is below 256, and at most one more than `unsigned long` has
bits: the search ends after as many passes as there are codes, the first rows of
`serial_number_` are the codes, each once, `*devices_found` is their number, and the
result is `Success` exactly when that is `max_devices`. -/
theorem rom_search (hw : WiredAnd interface codes view) (hdistinct : codes.Nodup)
    (hmin : 1 ≤ codes.length) (hmax : codes.length ≤ maxDevices) (hbyte : maxDevices ≤ 255)
    (hword : codes.length - 1 ≤ w) (serialNumber : Vector Rom maxDevices) (cell : UInt8)
    (bus : β) (fuel : Nat) :
    (fuel < codes.length →
      searchSensors interface w fuel maxDevices serialNumber (some cell) bus = none) ∧
    (codes.length ≤ fuel → ∃ res devices serialNumber' bus',
      searchSensors interface w fuel maxDevices serialNumber (some cell) bus =
        some (res, some devices, serialNumber', bus') ∧
      devices.toNat = codes.length ∧
      (serialNumber'.toList.take codes.length).Perm codes ∧
      (res = .success ↔ codes.length = maxDevices)) := by
  obtain ⟨t, ht, hlen⟩ := codes_trie hdistinct hmin hword
  have hperm := ht.perm
  obtain ⟨hnone, hsome⟩ := searchLoop_visits hw ht hlen hbyte (visits_leaves t)
    encodes_zero bus serialNumber 0 (by rw [hperm.length_eq]; simpa using hmax) fuel
  rw [hperm.length_eq] at hnone hsome
  refine ⟨fun hfuel => ?_, fun hfuel => ?_⟩
  · rw [searchSensors, hnone hfuel]
    rfl
  · obtain ⟨found, hfound, hearly, hcount, hrows⟩ := hsome hfuel
    rw [UInt8.toNat_zero, Nat.zero_add] at hcount
    refine ⟨if found.cntNum.toNat = maxDevices then .success else .notAllDevicesFound,
      found.cntNum, found.serialNumber, found.bus, ?_, hcount, ?_, ?_⟩
    · rw [searchSensors, hfound]
      show Option.bind (some found) _ = _
      rw [Option.bind_some, hearly]
      rfl
    · rw [hrows, UInt8.toNat_zero, List.take_zero, List.nil_append,
        ← hperm.length_eq, List.take_left' rfl]
      exact hperm
    · rw [hcount]
      by_cases hall : codes.length = maxDevices
      · rw [if_pos hall]
        exact ⟨fun _ => hall, fun _ => rfl⟩
      · rw [if_neg hall]
        exact ⟨(fun h => nomatch h), fun h => absurd h hall⟩

/-- The bus itself as an implementation of the interface. -/
def wire (codes : List Rom) : Interface Wire where
  reset _ := (.success, ⟨codes, 0, false⟩)
  write _ s := s
  writeBit v s :=
    ⟨s.selected.filter fun r => Rom.bit r s.index = decide (v ≠ 0), s.index + 1, false⟩
  readBit s := (if s.selected.all fun r => Rom.bit r s.index = !s.complement then 1 else 0,
    { s with complement := !s.complement })

theorem wire_wiredAnd (codes : List Rom) : WiredAnd (wire codes) codes id := by
  refine ⟨fun _ => ⟨rfl, rfl⟩, fun _ => rfl, fun s => ⟨?_, rfl⟩, fun _ _ => rfl⟩
  show (if s.selected.all _ then (1 : UInt8) else 0) ≠ 0 ↔ _
  split
  · rename_i hall
    simpa using hall
  · rename_i hall
    simpa using hall

/-- Two devices that part in the first bit. -/
theorem rom_search_two : ∃ res devices serialNumber' bus',
    searchSensors (wire [#v[1, 0, 0, 0, 0, 0, 0, 0], #v[2, 0, 0, 0, 0, 0, 0, 0]]) 32 2 2
      (Vector.replicate 2 (Vector.replicate 8 0)) (some 0) ⟨[], 0, false⟩ =
        some (res, some devices, serialNumber', bus') ∧
    devices = 2 ∧ res = .success ∧
    (serialNumber'.toList.take 2).Perm
      [#v[1, 0, 0, 0, 0, 0, 0, 0], #v[2, 0, 0, 0, 0, 0, 0, 0]] := by
  obtain ⟨res, devices, serialNumber', bus', hsearch, hdevices, hperm, hres⟩ :=
    (rom_search (w := 32) (wire_wiredAnd [#v[1, 0, 0, 0, 0, 0, 0, 0], #v[2, 0, 0, 0, 0, 0, 0, 0]])
      (by decide) (by decide) (Nat.le_refl 2) (by decide) (by decide)
      (Vector.replicate 2 (Vector.replicate 8 0)) 0 ⟨[], 0, false⟩ 2).2 (by decide)
  exact ⟨res, devices, serialNumber', bus', hsearch, UInt8.toNat_inj.mp hdevices,
    hres.mpr rfl, hperm⟩

end MyLibraries.OneWire
