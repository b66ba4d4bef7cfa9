import Mathlib.Algebra.Group.Nat.Defs
import Mathlib.Data.List.TakeDrop
import Mathlib.Data.List.TakeWhile

/-!
# Byte memories with checked access

A memory is a finite list of bytes and an address is an index into it. Every load and
store is checked: an access that leaves the memory is `none`, so a program that returns
`some` has touched no byte outside it.

The assertion `At m p bs` says that the bytes `bs` lie at address `p`. It splits along
`++` (`at_append`), a store establishes it (`at_of_store`) and a store elsewhere keeps it
(`at_store_frame`); these are the only facts a layout proof needs. Words are little
endian.
-/

namespace MyLibraries.Memory

/-- The addressable bytes, from address `0` on. -/
abbrev Mem := List UInt8

/-- The `n` bytes at address `p`. -/
def load (m : Mem) (p n : Nat) : Option (List UInt8) :=
  if p + n ≤ m.length then some ((m.drop p).take n) else none

/-- Write `bs` from address `p` on. -/
def store (m : Mem) (p : Nat) (bs : List UInt8) : Option Mem :=
  if p + bs.length ≤ m.length then some (m.take p ++ bs ++ m.drop (p + bs.length)) else none

/-- Copy `n` bytes from `src` to `dst`; the ranges may overlap. -/
def move (m : Mem) (dst src n : Nat) : Option Mem := do
  let bs ← load m src n
  store m dst bs

/-- The bytes `bs` lie at address `p`. -/
def At (m : Mem) (p : Nat) (bs : List UInt8) : Prop := load m p bs.length = some bs

instance (m : Mem) (p : Nat) (bs : List UInt8) : Decidable (At m p bs) :=
  inferInstanceAs (Decidable (_ = _))

variable {m m' : Mem} {p q n : Nat} {bs cs : List UInt8}

/-- The sequencing rule of the checked programs over a memory. It is `Option.bind_some`
without being definitional: `simp` would otherwise compare the two sides by evaluating
address arithmetic on machine words. -/
theorem some_bind {α β : Type} (a : α) (f : α → Option β) : (some a).bind f = f a := by
  rw [Option.bind_some]

/-! ## Loads -/

theorem load_length (h : load m p n = some bs) : bs.length = n := by
  unfold load at h
  split at h
  · cases h
    simp only [List.length_take, List.length_drop]
    omega
  · cases h

theorem load_bound (h : load m p n = some bs) : p + n ≤ m.length := by
  unfold load at h
  split at h
  · assumption
  · cases h

theorem load_exists (h : p + n ≤ m.length) : ∃ bs, load m p n = some bs := ⟨_, if_pos h⟩

theorem at_of_load (h : load m p n = some bs) : At m p bs := by
  unfold At
  rw [load_length h, h]

theorem load_of_at (h : At m p bs) (hn : n = bs.length) : load m p n = some bs := by
  rw [hn]
  exact h

theorem load_all (m : Mem) : load m 0 m.length = some m := by simp [load]

theorem at_bound (h : At m p bs) : p + bs.length ≤ m.length := load_bound h

/-- The pointwise reading of `At`. -/
theorem at_iff : At m p bs ↔
    p + bs.length ≤ m.length ∧ ∀ i, i < bs.length → m[p + i]? = bs[i]? := by
  unfold At load
  constructor
  · intro h
    split at h
    · rename_i hb
      refine ⟨hb, fun i hi => ?_⟩
      have he : (m.drop p).take bs.length = bs := Option.some.inj h
      rw [← he, List.getElem?_take_of_lt hi, List.getElem?_drop]
    · cases h
  · rintro ⟨hb, hi⟩
    rw [if_pos hb]
    congr 1
    apply List.ext_getElem?
    intro i
    by_cases h : i < bs.length
    · rw [List.getElem?_take_of_lt h, List.getElem?_drop, hi i h]
    · rw [List.getElem?_eq_none (by simp only [List.length_take]; omega),
        List.getElem?_eq_none (by omega)]

/-- A load depends on the bytes it reads only. -/
theorem load_congr (hlen : m'.length = m.length)
    (h : ∀ i, p ≤ i → i < p + n → m'[i]? = m[i]?) : load m' p n = load m p n := by
  unfold load
  rw [hlen]
  refine if_congr Iff.rfl (congrArg some ?_) rfl
  apply List.ext_getElem?
  intro i
  by_cases hi : i < n
  · rw [List.getElem?_take_of_lt hi, List.getElem?_take_of_lt hi, List.getElem?_drop,
      List.getElem?_drop, h (p + i) (by omega) (by omega)]
  · rw [List.getElem?_eq_none (by simp only [List.length_take]; omega),
      List.getElem?_eq_none (by simp only [List.length_take]; omega)]

@[simp] theorem at_nil : At m p [] ↔ p ≤ m.length := by simp [at_iff]

/-- Adjacent blocks. -/
theorem at_append : At m p (bs ++ cs) ↔ At m p bs ∧ At m (p + bs.length) cs := by
  simp only [at_iff, List.length_append]
  constructor
  · rintro ⟨hb, h⟩
    refine ⟨⟨by omega, fun i hi => ?_⟩, by omega, fun i hi => ?_⟩
    · rw [h i (by omega), List.getElem?_append_left hi]
    · have := h (bs.length + i) (by omega)
      rw [List.getElem?_append_right (by omega), Nat.add_sub_cancel_left] at this
      rw [Nat.add_assoc, this]
  · rintro ⟨⟨_, h₁⟩, hb, h₂⟩
    refine ⟨by omega, fun i hi => ?_⟩
    by_cases hlt : i < bs.length
    · rw [h₁ i hlt, List.getElem?_append_left hlt]
    · have := h₂ (i - bs.length) (by omega)
      rw [List.getElem?_append_right (by omega), ← this]
      congr 1
      omega

theorem at_cons {b : UInt8} : At m p (b :: bs) ↔ At m p [b] ∧ At m (p + 1) bs := by
  rw [← List.singleton_append, at_append, List.length_singleton]

/-! ## Stores -/

theorem store_exists (m : Mem) (p : Nat) (bs : List UInt8) (h : p + bs.length ≤ m.length) :
    ∃ m', store m p bs = some m' :=
  ⟨_, if_pos h⟩

theorem store_bound (h : store m p bs = some m') : p + bs.length ≤ m.length := by
  unfold store at h
  split at h
  · assumption
  · cases h

theorem store_length (h : store m p bs = some m') : m'.length = m.length := by
  have hb := store_bound h
  unfold store at h
  rw [if_pos hb] at h
  cases h
  simp only [List.length_append, List.length_take, List.length_drop]
  omega

/-- Every byte after a store. -/
theorem store_getElem? (h : store m p bs = some m') (i : Nat) :
    m'[i]? = if p ≤ i ∧ i < p + bs.length then bs[i - p]? else m[i]? := by
  have hb := store_bound h
  unfold store at h
  rw [if_pos hb] at h
  cases h
  have hp : (m.take p).length = p := by simp only [List.length_take]; omega
  rw [List.append_assoc]
  by_cases h₁ : i < p
  · rw [if_neg (by omega), List.getElem?_append_left (by omega), List.getElem?_take_of_lt h₁]
  · rw [List.getElem?_append_right (by omega), hp]
    by_cases h₂ : i < p + bs.length
    · rw [if_pos ⟨by omega, h₂⟩, List.getElem?_append_left (by omega)]
    · rw [if_neg (by omega), List.getElem?_append_right (by omega), List.getElem?_drop]
      congr 1
      omega

/-- A store puts its bytes where it says. -/
theorem at_of_store (h : store m p bs = some m') : At m' p bs := by
  rw [at_iff, store_length h]
  refine ⟨store_bound h, fun i hi => ?_⟩
  rw [store_getElem? h, if_pos ⟨by omega, by omega⟩, Nat.add_sub_cancel_left]

/-- A store changes no block disjoint from it. -/
theorem at_store_frame (h : store m p bs = some m')
    (hd : q + cs.length ≤ p ∨ p + bs.length ≤ q) : At m' q cs ↔ At m q cs := by
  rw [at_iff, at_iff, store_length h]
  refine and_congr_right fun _ => forall₂_congr fun i hi => ?_
  rw [store_getElem? h, if_neg (by omega)]

theorem store_at_self (h : At m p bs) : store m p bs = some m := by
  obtain ⟨hb, hi⟩ := at_iff.mp h
  obtain ⟨m', hm'⟩ := store_exists m p bs hb
  rw [hm']
  congr 1
  apply List.ext_getElem?
  intro i
  rw [store_getElem? hm']
  split
  · rename_i hr
    rw [← hi (i - p) (by omega)]
    congr 1
    omega
  · rfl

/-- Two adjacent stores are one. -/
theorem store_append (m : Mem) (p : Nat) (bs cs : List UInt8) :
    store m p (bs ++ cs) = (store m p bs).bind fun m' => store m' (p + bs.length) cs := by
  by_cases hb : p + (bs.length + cs.length) ≤ m.length
  · obtain ⟨m₁, h₁⟩ := store_exists m p bs (by omega)
    obtain ⟨m₂, h₂⟩ := store_exists m₁ (p + bs.length) cs (by rw [store_length h₁]; omega)
    obtain ⟨m₃, h₃⟩ := store_exists m p (bs ++ cs) (by rw [List.length_append]; exact hb)
    rw [h₁, h₃, Option.bind_some, h₂]
    congr 1
    apply List.ext_getElem?
    intro i
    rw [store_getElem? h₃, store_getElem? h₂, store_getElem? h₁, List.length_append]
    by_cases hlo : p + bs.length ≤ i
    · by_cases hhi : i < p + bs.length + cs.length
      · rw [if_pos ⟨by omega, by omega⟩, if_pos ⟨hlo, hhi⟩,
          List.getElem?_append_right (by omega)]
        congr 1
        omega
      · rw [if_neg (by omega), if_neg (by omega), if_neg (by omega)]
    · by_cases hp : p ≤ i
      · rw [if_pos ⟨hp, by omega⟩, if_neg (by omega), if_pos ⟨hp, by omega⟩,
          List.getElem?_append_left (by omega)]
      · rw [if_neg (by omega), if_neg (by omega), if_neg (by omega)]
  · have hn : store m p (bs ++ cs) = none := if_neg (by rw [List.length_append]; exact hb)
    rw [hn]
    cases h₁ : store m p bs with
    | none => rfl
    | some m₁ =>
      rw [Option.bind_some]
      exact (if_neg (by rw [store_length h₁]; omega)).symm

/-! ## Stores that are cut off at the end of the memory -/

/-- Write as many of `bs` from address `p` on as the memory has room for. -/
def fill : Mem → Nat → List UInt8 → Mem
  | m, _, [] => m
  | m, p, b :: bs => fill (m.set p b) (p + 1) bs

theorem fill_append : fill m p (bs ++ cs) = fill (fill m p bs) (p + bs.length) cs := by
  induction bs generalizing m p with
  | nil => rfl
  | cons b bs ih =>
    rw [List.cons_append, fill, ih, fill, List.length_cons]
    congr 1
    omega

theorem fill_getElem?_of_lt {i : Nat} (hi : i < p) : (fill m p bs)[i]? = m[i]? := by
  induction bs generalizing m p with
  | nil => rfl
  | cons b bs ih => rw [fill, ih (by omega), List.getElem?_set_ne (by omega)]

@[simp] theorem fill_length : (fill m p bs).length = m.length := by
  induction bs generalizing m p with
  | nil => rfl
  | cons b bs ih => rw [fill, ih, List.length_set]

theorem at_fill_below (h : q + cs.length ≤ p) : At (fill m p bs) q cs ↔ At m q cs := by
  rw [at_iff, at_iff, fill_length]
  refine and_congr_right fun _ => forall₂_congr fun i hi => ?_
  rw [fill_getElem?_of_lt (by omega)]

/-- With room for all the bytes it is a store. -/
theorem store_eq_fill (m : Mem) (p : Nat) (bs : List UInt8) (h : p + bs.length ≤ m.length) :
    store m p bs = some (fill m p bs) := by
  induction bs generalizing m p with
  | nil => exact store_at_self (at_nil.mpr h)
  | cons b bs ih =>
    rw [List.length_cons] at h
    have hset : store m p [b] = some (m.set p b) := by
      rw [List.set_eq_take_append_cons_drop, if_pos (by omega)]
      show store m p [b] = some (m.take p ++ ([b] ++ m.drop (p + 1)))
      rw [← List.append_assoc]
      exact if_pos (by simp only [List.length_singleton]; omega)
    rw [← List.singleton_append, store_append, hset, some_bind, List.length_singleton,
      ih _ _ (by rw [List.length_set]; omega)]
    rfl

/-- A copy moves the block that lies at its source. -/
theorem move_of_at (h : At m q bs) : move m p q bs.length = store m p bs := by
  unfold At at h
  simp only [move, h, Option.bind_eq_bind, Option.bind_some]

/-! ## Machine words -/

/-- The value of a `w`-bit unsigned expression. -/
def wrap (w n : Nat) : Nat := n % 2 ^ w

theorem wrap_of_lt {w n : Nat} (h : n < 2 ^ w) : wrap w n = n := Nat.mod_eq_of_lt h

theorem wrap_lt (w n : Nat) : wrap w n < 2 ^ w := Nat.mod_lt _ (Nat.two_pow_pos w)

/-! ## Little-endian words -/

/-- The low `k` bytes of `w`, least significant first. -/
def leBytes : Nat → Nat → List UInt8
  | 0, _ => []
  | k + 1, w => UInt8.ofNat w :: leBytes k (w / 256)

/-- The number whose bytes are `bs`, least significant first. -/
def ofLe : List UInt8 → Nat
  | [] => 0
  | b :: bs => b.toNat + 256 * ofLe bs

/-- The `k`-byte word at address `p`. -/
def loadWord (m : Mem) (p k : Nat) : Option Nat := (load m p k).map ofLe

/-- Write the low `k` bytes of `w` at address `p`. -/
def storeWord (m : Mem) (p k w : Nat) : Option Mem := store m p (leBytes k w)

@[simp] theorem leBytes_length (k w : Nat) : (leBytes k w).length = k := by
  induction k generalizing w with
  | zero => rfl
  | succ k ih => simp only [leBytes, List.length_cons, ih]

theorem ofLe_lt (bs : List UInt8) : ofLe bs < 256 ^ bs.length := by
  induction bs with
  | nil => simp [ofLe]
  | cons b bs ih =>
    have hb : b.toNat < 256 := b.toNat_lt
    simp only [ofLe, List.length_cons, Nat.pow_succ]
    omega

theorem ofLe_leBytes (k w : Nat) : ofLe (leBytes k w) = w % 256 ^ k := by
  induction k generalizing w with
  | zero => simp [leBytes, ofLe, Nat.mod_one]
  | succ k ih =>
    have hb : (UInt8.ofNat w).toNat = w % 256 := UInt8.toNat_ofNat'
    rw [leBytes, ofLe, ih, hb, Nat.pow_succ', Nat.mod_mul]

theorem leBytes_ofLe (bs : List UInt8) : leBytes bs.length (ofLe bs) = bs := by
  induction bs with
  | nil => rfl
  | cons b bs ih =>
    have hb : b.toNat < 256 := b.toNat_lt
    have hlow : UInt8.ofNat (b.toNat + 256 * ofLe bs) = b := by
      apply UInt8.toNat_inj.mp
      rw [UInt8.toNat_ofNat']
      omega
    have hhigh : (b.toNat + 256 * ofLe bs) / 256 = ofLe bs := by omega
    simp only [List.length_cons, ofLe, leBytes, hlow, hhigh, ih]

/-- A word of `k + 1` bytes is its low byte and the word of the others. -/
theorem at_leBytes_succ {k w : Nat} : At m p (leBytes (k + 1) w) ↔
    At m p (leBytes 1 w) ∧ At m (p + 1) (leBytes k (w / 256)) := at_cons

theorem loadWord_mod_of_at {k w : Nat} (h : At m p (leBytes k w)) :
    loadWord m p k = some (w % 256 ^ k) := by
  unfold At at h
  rw [leBytes_length] at h
  rw [loadWord, h, Option.map_some, ofLe_leBytes]

theorem loadWord_of_at {k w : Nat} (h : At m p (leBytes k w)) (hw : w < 256 ^ k) :
    loadWord m p k = some w := by
  rw [loadWord_mod_of_at h, Nat.mod_eq_of_lt hw]

theorem at_of_loadWord {k w : Nat} (h : loadWord m p k = some w) : At m p (leBytes k w) := by
  obtain ⟨bs, hbs, rfl⟩ := Option.map_eq_some_iff.mp h
  have hl := load_length hbs
  rw [← hl, leBytes_ofLe]
  exact at_of_load hbs

theorem loadWord_exists {k : Nat} (h : p + k ≤ m.length) : ∃ w, loadWord m p k = some w := by
  obtain ⟨bs, hbs⟩ := load_exists h
  exact ⟨ofLe bs, by rw [loadWord, hbs, Option.map_some]⟩

theorem loadWord_congr {k : Nat} (hlen : m'.length = m.length)
    (h : ∀ i, p ≤ i → i < p + k → m'[i]? = m[i]?) : loadWord m' p k = loadWord m p k := by
  rw [loadWord, load_congr hlen h, loadWord]

theorem loadWord_bound {k w : Nat} (h : loadWord m p k = some w) : p + k ≤ m.length := by
  obtain ⟨bs, hbs, -⟩ := Option.map_eq_some_iff.mp h
  exact load_bound hbs

theorem loadWord_lt {k w : Nat} (h : loadWord m p k = some w) : w < 256 ^ k := by
  obtain ⟨bs, hbs, rfl⟩ := Option.map_eq_some_iff.mp h
  rw [← load_length hbs]
  exact ofLe_lt bs

/-! ## Strings -/

/-- A C string without its terminator. -/
abbrev CString := { s : List UInt8 // 0 ∉ s }

/-- The C string at address `p`, when its terminator lies in the memory. -/
def loadString (m : Mem) (p : Nat) : Option (List UInt8) :=
  let s := (m.drop p).takeWhile (· ≠ 0)
  if p + s.length < m.length then some s else none

private theorem takeWhile_length_le {l : List UInt8} {k : Nat} (h : l[k]? = some 0) :
    (l.takeWhile (· ≠ 0)).length ≤ k := by
  induction l generalizing k with
  | nil => simp at h
  | cons b l ih =>
    cases k with
    | zero =>
      have hb : b = 0 := by simpa using h
      simp [hb]
    | succ k =>
      rw [List.takeWhile_cons]
      split
      · rw [List.length_cons]
        exact Nat.succ_le_succ (ih (by simpa using h))
      · simp

private theorem getElem?_takeWhile_length {l : List UInt8}
    (h : (l.takeWhile (· ≠ 0)).length < l.length) :
    l[(l.takeWhile (· ≠ 0)).length]? = some 0 := by
  induction l with
  | nil => simp at h
  | cons b l ih =>
    rw [List.takeWhile_cons] at h ⊢
    split at h
    · rename_i hb
      rw [if_pos hb, List.length_cons, List.getElem?_cons_succ]
      exact ih (by simpa using h)
    · rename_i hb
      rw [if_neg hb]
      simpa using hb

/-- A terminator behind `p` ends a string. -/
theorem loadString_exists {k : Nat} (h : m[p + k]? = some 0) :
    ∃ s, loadString m p = some s ∧ s.length ≤ k := by
  have hk : ((m.drop p).takeWhile (· ≠ 0)).length ≤ k :=
    takeWhile_length_le (by rw [List.getElem?_drop]; exact h)
  have hlt : p + k < m.length := (List.getElem?_eq_some_iff.mp h).1
  exact ⟨_, if_pos (by omega), hk⟩

theorem loadString_terminated {s : List UInt8} (h : loadString m p = some s) :
    m[p + s.length]? = some 0 := by
  unfold loadString at h
  simp only at h
  split at h
  · rename_i hlt
    cases h
    rw [← List.getElem?_drop]
    exact getElem?_takeWhile_length (by rw [List.length_drop]; omega)
  · cases h

theorem loadString_of_at {s : List UInt8} (hs : 0 ∉ s) (h : At m p (s ++ [0])) :
    loadString m p = some s := by
  obtain ⟨t, ht⟩ : ∃ t, m.drop p = s ++ 0 :: t := by
    have hb := at_bound h
    unfold At load at h
    rw [if_pos hb] at h
    refine ⟨(m.drop p).drop (s ++ [0]).length, ?_⟩
    conv_lhs => rw [← List.take_append_drop (s ++ [0]).length (m.drop p), Option.some.inj h]
    simp
  have htake : (m.drop p).takeWhile (· ≠ 0) = s := by
    rw [ht, List.takeWhile_append_of_pos]
    · simp
    · intro a ha
      have hne : a ≠ 0 := fun h0 => hs (h0 ▸ ha)
      simpa using hne
  have hlen := at_bound h
  rw [List.length_append, List.length_singleton] at hlen
  unfold loadString
  simp only [htake]
  exact if_pos (by omega)

end MyLibraries.Memory
