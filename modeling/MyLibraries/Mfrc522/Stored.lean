import MyLibraries.Core.Run
import MyLibraries.Mfrc522.Operate32

/-!
# What `MFRC522_DecodeData` accepts

The check compares the first copy of a value with the third and leaves the complement
between them out, so a block is accepted with any complement (`decodeData_format_iff`). Its
status is a static variable that is set to an error and never back: after the first block
that is rejected, no block is accepted any more (`decodeData_history_iff`).
-/

namespace MyLibraries.Mfrc522

open Device Memory

/-- The first status of a block is `MI_OK`. -/
def Accepted {m : Nat} (data : Vector UInt8 (12 + m)) : Prop := (decodeData .ok data).1 = .ok

instance {m : Nat} (data : Vector UInt8 (12 + m)) : Decidable (Accepted data) :=
  inferInstanceAs (Decidable (_ = _))

/-- A block with a value in it. -/
def encoded (v : UInt32) : Vector UInt8 12 := encodeData (m := 0) v (Vector.replicate 12 0)

/-- A call of one of the two functions, with what the chip answers in it. -/
inductive Event
  | decode (block : Vector UInt8 12)
  | operate (c : Call32) (answers : Nat → UInt8)

/-- A call as a step of the static variables. -/
def step (rxGain : UInt8) (s : Statics) : Event → Option (Status × Statics)
  | .decode block =>
    let (res, _) := decodeData (m := 0) s.decoded block
    some (res, { s with decoded := res })
  | .operate c answers => (run answers (operate32 rxGain c s) 0).map Prod.snd

/-- The block that the call decodes, if it decodes one, would be accepted on a first call. -/
def Clean (rxGain : UInt8) (s : Statics) : Event → Prop
  | .decode block => Accepted (m := 0) block
  | .operate c answers => ∀ t sn data s',
    run answers (acquire rxGain c s) 0 = some (t, .ready sn (some data), s') →
      Accepted (m := 4) data

variable {m : Nat} {rxGain : UInt8} {s s' : Statics} {e : Event} {r res : Status} {c : Call32}
  {v : UInt32} {block : Vector UInt8 12} {t : List (Access UInt8 UInt8)}

/-! ## The format -/

theorem v8_toList (v : UInt32) : (v8 v).toList = leBytes 4 v.toNat := by
  have hbyte : ∀ k < 32, (v >>> UInt32.ofNat k).toUInt8 = UInt8.ofNat (v.toNat / 2 ^ k) := by
    intro k hk
    apply UInt8.toNat_inj.mp
    have hsmall : k % 2 ^ 32 % 32 = k := by omega
    rw [UInt32.toNat_toUInt8, UInt32.toNat_shiftRight, UInt32.toNat_ofNat', UInt8.toNat_ofNat',
      Nat.shiftRight_eq_div_pow, hsmall]
  have h₀ : v.toUInt8 = UInt8.ofNat v.toNat := rfl
  have h₁ := hbyte 8 (by decide)
  have h₂ := hbyte 16 (by decide)
  have h₃ := hbyte 24 (by decide)
  show [v.toUInt8, (v >>> 8).toUInt8, (v >>> 16).toUInt8, (v >>> 24).toUInt8] = _
  rw [h₀, show (8 : UInt32) = UInt32.ofNat 8 from rfl, h₁,
    show (16 : UInt32) = UInt32.ofNat 16 from rfl, h₂,
    show (24 : UInt32) = UInt32.ofNat 24 from rfl, h₃]
  simp only [leBytes, Nat.div_div_eq_div_mul]
  rfl

/-- A word is read back from its bytes. -/
theorem v32_v8 (v : UInt32) : v32 (v8 v) = v := by
  have hv : v.toNat < 256 ^ 4 := v.toNat_lt
  rw [v32, v8_toList, ofLe_leBytes, Nat.mod_eq_of_lt hv, UInt32.ofNat_toNat]

theorem v8_v32 (b : Vector UInt8 4) : v8 (v32 b) = b := by
  apply Vector.toList_inj.mp
  have hlen : b.toList.length = 4 := b.length_toList
  have hlt : ofLe b.toList < 2 ^ 32 := by
    have hbound := ofLe_lt b.toList
    rwa [hlen] at hbound
  have hbytes := leBytes_ofLe b.toList
  rw [hlen] at hbytes
  rw [v8_toList, v32, UInt32.toNat_ofNat', Nat.mod_eq_of_lt hlt, hbytes]

theorem accepted_iff :
    Accepted (m := 0) block ↔ ∀ cnt : Fin 4, block[cnt.val] = block[cnt.val + 8] := by
  unfold Accepted decodeData
  dsimp only
  split
  · rename_i hany
    refine iff_of_false (by decide) fun hall => ?_
    obtain ⟨cnt, -, hne⟩ := List.any_eq_true.mp hany
    exact (bne_iff_ne.mp hne) (hall cnt)
  · rename_i hnone
    refine iff_of_true rfl fun cnt => ?_
    by_contra hne
    exact hnone (List.any_eq_true.mpr ⟨cnt, List.mem_finRange cnt, bne_iff_ne.mpr hne⟩)

/-- The three copies of a word in a block. -/
theorem encoded_getElem (v : UInt32) (cnt : Fin 4) :
    (encoded v)[cnt.val] = (v8 v)[cnt.val] ∧ (encoded v)[cnt.val + 4] = ~~~(v8 v)[cnt.val] ∧
      (encoded v)[cnt.val + 8] = (v8 v)[cnt.val] := by
  match cnt with
  | ⟨0, _⟩ => simp [encoded, encodeData, v8]
  | ⟨1, _⟩ => simp [encoded, encodeData, v8]
  | ⟨2, _⟩ => simp [encoded, encodeData, v8]
  | ⟨3, _⟩ => simp [encoded, encodeData, v8]

/-- A block is known by its three parts. -/
theorem eq_encoded_iff : block = encoded v ↔ ∀ cnt : Fin 4, block[cnt.val] = (v8 v)[cnt.val] ∧
    block[cnt.val + 4] = ~~~(v8 v)[cnt.val] ∧ block[cnt.val + 8] = (v8 v)[cnt.val] := by
  constructor
  · rintro rfl cnt
    exact encoded_getElem v cnt
  · intro hall
    apply Vector.ext
    intro i hi
    by_cases h4 : i < 4
    · exact (hall ⟨i, h4⟩).1.trans (encoded_getElem v ⟨i, h4⟩).1.symm
    by_cases h8 : i < 8
    · obtain ⟨j, rfl⟩ : ∃ j, i = j + 4 := ⟨i - 4, by omega⟩
      have hj : j < 4 := by omega
      exact (hall ⟨j, hj⟩).2.1.trans (encoded_getElem v ⟨j, hj⟩).2.1.symm
    · obtain ⟨j, rfl⟩ : ∃ j, i = j + 8 := ⟨i - 8, by omega⟩
      have hj : j < 4 := by omega
      exact (hall ⟨j, hj⟩).2.2.trans (encoded_getElem v ⟨j, hj⟩).2.2.symm

/-- The word that is decoded is the one whose bytes the first copy has. -/
theorem v8_decodeData (res : Status) (cnt : Fin 4) :
    (v8 (decodeData (m := 0) res block).2)[cnt.val] = block[cnt.val] := by
  show (v8 (v32 _))[cnt.val] = _
  rw [v8_v32]
  match cnt with
  | 0 => rfl
  | 1 => rfl
  | 2 => rfl
  | 3 => rfl

/-- The blocks with a value in them. -/
theorem exists_encoded_iff : (∃ v, block = encoded v) ↔
    Accepted (m := 0) block ∧ ∀ cnt : Fin 4, block[cnt.val + 4] = ~~~block[cnt.val] := by
  rw [accepted_iff]
  constructor
  · rintro ⟨v, hv⟩
    have hall := eq_encoded_iff.mp hv
    exact ⟨fun cnt => (hall cnt).1.trans (hall cnt).2.2.symm,
      fun cnt => by rw [(hall cnt).2.1, (hall cnt).1]⟩
  · rintro ⟨hsame, hnot⟩
    refine ⟨(decodeData (m := 0) .ok block).2, eq_encoded_iff.mpr fun cnt => ?_⟩
    rw [v8_decodeData]
    exact ⟨rfl, hnot cnt, (hsame cnt).symm⟩

theorem decodeData_encoded (res : Status) (v : UInt32) :
    (decodeData (m := 0) res (encoded v)).2 = v := by
  have hbytes : v8 (decodeData (m := 0) res (encoded v)).2 = v8 v := by
    apply Vector.ext
    intro i hi
    rw [v8_decodeData res ⟨i, hi⟩]
    exact (encoded_getElem v ⟨i, hi⟩).1
  rw [← v32_v8 (decodeData (m := 0) res (encoded v)).2, hbytes, v32_v8]

/-- **What is accepted on a first call**: the blocks with a value in them and no other,
where the first copy and the third differ or the second is the complement. -/
theorem decodeData_format_iff (block : Vector UInt8 12) :
    (((decodeData (m := 0) Statics.start.decoded block).1 = .ok ↔ ∃ v, block = encoded v) ∧
        ∀ v, block = encoded v → (decodeData (m := 0) Statics.start.decoded block).2 = v) ↔
      ((∀ cnt : Fin 4, block[cnt.val] = block[cnt.val + 8]) →
        ∀ cnt : Fin 4, block[cnt.val + 4] = ~~~block[cnt.val]) := by
  have hvalue : ∀ v, block = encoded v →
      (decodeData (m := 0) Statics.start.decoded block).2 = v := by
    rintro v rfl
    exact decodeData_encoded _ v
  have hok : (decodeData (m := 0) Statics.start.decoded block).1 = .ok ↔
      Accepted (m := 0) block := Iff.rfl
  rw [and_iff_left hvalue, hok, exists_encoded_iff, ← accepted_iff]
  constructor
  · exact fun hiff haccepted => (hiff.mp haccepted).2
  · exact fun hnot => ⟨fun h => ⟨h, hnot h⟩, fun h => h.1⟩

/-- A block with a damaged complement is accepted. -/
theorem decodeData_damaged_complement :
    let block : Vector UInt8 12 := #v[1, 0, 0, 0, 0xFF, 0xFF, 0xFF, 0xFF, 1, 0, 0, 0]
    (decodeData (m := 0) Statics.start.decoded block).1 = .ok ∧ ¬∃ v, block = encoded v := by
  refine ⟨by decide, fun h => ?_⟩
  exact absurd ((exists_encoded_iff.mp h).2 0) (by decide)

/-! ## The status from call to call -/

/-- Only the check itself changes its status. -/
theorem returns_acquire (rxGain : UInt8) (c : Call32) (s : Statics) :
    Returns (fun r => r.2.decoded = s.decoded) (acquire rxGain c s) := by
  have hleave {α : Type} (res : α) (s₁ : Statics) (h₁ : s₁.decoded = s.decoded) :
      Returns (fun r => r.2.decoded = s.decoded) (leave rxGain res s₁) :=
    returns_bind fun _ => h₁
  unfold acquire
  split
  · exact rfl
  refine returns_bind fun r₁ => ?_
  dsimp only
  split
  · exact rfl
  refine returns_bind fun r₂ => ?_
  split
  · exact rfl
  refine returns_bind fun card => ?_
  split
  · exact hleave _ _ rfl
  refine returns_bind fun status₃ => ?_
  split
  · exact hleave _ _ rfl
  split
  · refine returns_bind fun r₄ => ?_
    split
    · exact hleave _ _ rfl
    · exact rfl
  · exact rfl

theorem returns_conclude (rxGain : UInt8) (c : Call32) (sn : Vector UInt8 16) (res : Status)
    (s : Statics) : Returns (fun r => r.2.decoded = s.decoded) (conclude rxGain c sn res s) := by
  unfold conclude
  dsimp only
  split
  · exact returns_bind fun _ => rfl
  · split
    · exact returns_bind fun _ => rfl
    · exact returns_bind fun _ => returns_bind fun _ => rfl

/-- What a check leaves. -/
theorem decodeData_status (res : Status) (data : Vector UInt8 (12 + m)) :
    (decodeData res data).1 = if Accepted data then res else .wrongData := by
  by_cases h : Accepted data
  · rw [if_pos h]
    unfold decodeData
    dsimp only
    split
    · rename_i hany
      unfold Accepted decodeData at h
      rw [if_pos hany] at h
      cases h
    · rfl
  · rw [if_neg h]
    unfold decodeData
    dsimp only
    split
    · rfl
    · rename_i hnone
      exact absurd (if_neg hnone) h

theorem decodeData_ok {data : Vector UInt8 (12 + m)} :
    (decodeData res data).1 = .ok ↔ res = .ok ∧ Accepted data := by
  rw [decodeData_status]
  split
  · rename_i h
    exact (and_iff_left h).symm
  · rename_i h
    exact iff_of_false (by decide) fun hok => h hok.2

/-- The status stays `MI_OK` as long as what is decoded is accepted. -/
theorem step_decoded (h : step rxGain s e = some (r, s')) :
    s'.decoded = .ok ↔ s.decoded = .ok ∧ Clean rxGain s e := by
  cases e with
  | decode block =>
    cases h
    exact decodeData_ok (m := 0)
  | operate c answers =>
    obtain ⟨⟨t, r', s''⟩, hrun, hend⟩ := Option.map_eq_some_iff.mp h
    cases hend
    obtain ⟨t₁, t₂, ⟨acquired, s₁⟩, n, hacquire, hrest⟩ := run_bind_eq_some hrun
    have hs₁ : s₁.decoded = s.decoded :=
      (does_of_run hacquire).returns (returns_acquire rxGain c s)
    have hclean : Clean rxGain s (.operate c answers) ↔
        ∀ sn data, acquired = .ready sn (some data) → Accepted (m := 4) data := by
      constructor
      · rintro hall sn data rfl
        exact hall t₁ sn data s₁ hacquire
      · intro hall t sn data s₂ hacquire'
        cases hacquire.symm.trans hacquire'
        exact hall sn data rfl
    rw [hclean]
    cases acquired with
    | stopped res =>
      cases hrest
      rw [hs₁]
      exact ⟨fun hok => ⟨hok, fun _ _ heq => nomatch heq⟩, fun hok => hok.1⟩
    | ready sn data =>
      cases data with
      | none =>
        have hs' := (does_of_run hrest).returns (returns_conclude rxGain c sn .ok s₁)
        rw [hs', hs₁]
        exact ⟨fun hok => ⟨hok, fun _ _ heq => nomatch heq⟩, fun hok => hok.1⟩
      | some data =>
        have hs' : s'.decoded = (decodeData (m := 4) s₁.decoded data).1 :=
          (does_of_run hrest).returns (returns_conclude rxGain c sn _ _)
        rw [hs', decodeData_ok, hs₁]
        refine and_congr_right fun _ => ⟨?_, fun hall => hall sn data rfl⟩
        rintro haccepted sn' data' ⟨⟩
        exact haccepted

/-- **When the status of a block is that of a first call**: when the block is to be rejected,
or no block of the calls before was. -/
theorem decodeData_history_iff (rxGain : UInt8) (es : List Event) (rs : List Status)
    (s : Statics) (hrun : Run.run (step rxGain) Statics.start es = some (rs, s))
    (block : Vector UInt8 12) :
    (decodeData (m := 0) s.decoded block).1 =
        (decodeData (m := 0) Statics.start.decoded block).1 ↔
      Accepted (m := 0) block → Run.AlongRun (step rxGain) (Clean rxGain) Statics.start es := by
  have hdecoded : s.decoded = .ok ↔
      Run.AlongRun (step rxGain) (Clean rxGain) Statics.start es := by
    rw [Run.inv_iff_alongRun (Q := fun s => s.decoded = .ok) (fun _ _ _ _ h => step_decoded h)
      hrun]
    exact and_iff_right rfl
  rw [decodeData_status, decodeData_status, ← hdecoded]
  split
  · rename_i h
    exact ⟨fun heq _ => heq, fun himp => himp h⟩
  · rename_i h
    exact iff_of_true rfl fun haccepted => absurd haccepted h

/-- A damaged block, and a good one behind it. -/
theorem good_block_rejected :
    let damaged : Vector UInt8 12 := #v[1, 0, 0, 0, 0xFE, 0xFF, 0xFF, 0xFF, 2, 0, 0, 0]
    ∃ s, Run.run (step 0x40) Statics.start [.decode damaged] = some ([.wrongData], s) ∧
      (decodeData (m := 0) Statics.start.decoded (encoded 1)).1 = .ok ∧
      (decodeData (m := 0) s.decoded (encoded 1)).1 = .wrongData :=
  ⟨_, rfl, by decide, by decide⟩

/-- Two good blocks, of which the second is accepted as it would be on a first call. -/
theorem decodeData_history_good : ∃ s,
    Run.run (step 0x40) Statics.start [.decode (encoded 1)] = some ([.ok], s) ∧
      (decodeData (m := 0) s.decoded (encoded 2)).1 =
        (decodeData (m := 0) Statics.start.decoded (encoded 2)).1 := by
  refine ⟨_, rfl, (decodeData_history_iff 0x40 [.decode (encoded 1)] [.ok] _ rfl _).mpr ?_⟩
  have hclean : Clean 0x40 Statics.start (.decode (encoded 1)) := by
    show Accepted (m := 0) (encoded 1)
    decide
  exact fun _ => ⟨hclean, fun _ _ _ => trivial⟩

end MyLibraries.Mfrc522
