import Mathlib.Data.List.Basic

/-!
# The two state machines

The C++ machine keeps a list of states under hashes and the C machine a table of states
under indices. The callbacks of both act on an environment of an arbitrary type, which
they share; every call is recorded with the state it was made for and what it returned.
-/

namespace MyLibraries.StateMachine

/-- The callbacks of a state. -/
inductive Kind
  | enter
  | work
  | exit
  deriving DecidableEq, Repr

/-- A call of a callback: for which state, and the result. -/
structure Call (ι ρ : Type) where
  kind : Kind
  state : ι
  ret : ρ
  deriving DecidableEq, Repr

variable {σ δ : Type}

/-! ## C++ -/

/-- `State`; a callback gets `user_data_`. -/
structure State (σ δ : Type) where
  stateHash : UInt32
  userData : δ
  enter : δ → σ → UInt32 × σ
  work : δ → σ → UInt32 × σ
  exit : δ → σ → UInt32 × σ

/-- `Machine`. -/
structure Machine (σ δ : Type) where
  states : List (State σ δ)
  current : State σ δ
  modeChangeN : Bool

/-- What `DoStep` returns, and the calls it made. -/
structure Reply where
  ret : Int
  calls : List (Call UInt32 UInt32)
  deriving DecidableEq, Repr

/-- `EINVAL`. -/
def einval : Int := 22

/-- The constructor of `Machine`. -/
def Machine.new (states : List (State σ δ)) (hne : states ≠ []) : Machine σ δ :=
  { states, current := states.head hne, modeChangeN := true }

/-- `Machine::find_state_by_hash`. -/
def Machine.findStateByHash (m : Machine σ δ) (hash : UInt32) : Option (State σ δ) :=
  m.states.find? fun p => p.stateHash = hash

/-- `Machine::DoStep` after its first block, with the calls made so far. -/
def Machine.doWork (m : Machine σ δ) (s : σ) (calls : List (Call UInt32 UInt32)) :
    Reply × Machine σ δ × σ :=
  let (next, s) := m.current.work m.current.userData s
  let calls := calls ++ [⟨.work, m.current.stateHash, next⟩]
  if next ≠ 0 then
    match m.findStateByHash next with
    | none => (⟨-einval, calls⟩, m, s)
    | some nextState =>
      let (next, s) := m.current.exit m.current.userData s
      let calls := calls ++ [⟨.exit, m.current.stateHash, next⟩]
      if next ≠ 0 then
        match m.findStateByHash next with
        | none => (⟨-einval, calls⟩, m, s)
        | some nextState =>
          (⟨0, calls⟩, { m with current := nextState, modeChangeN := true }, s)
      else (⟨0, calls⟩, { m with current := nextState, modeChangeN := true }, s)
  else if m.modeChangeN then
    let (next, s) := m.current.exit m.current.userData s
    let calls := calls ++ [⟨.exit, m.current.stateHash, next⟩]
    if next ≠ 0 then
      match m.findStateByHash next with
      | none => (⟨-einval, calls⟩, m, s)
      | some nextState => (⟨0, calls⟩, { m with current := nextState }, s)
    else (⟨0, calls⟩, m, s)
  else (⟨0, calls⟩, m, s)

/-- `Machine::DoStep`. -/
def Machine.doStep (m : Machine σ δ) (s : σ) : Reply × Machine σ δ × σ :=
  if m.modeChangeN then
    let (next, s) := m.current.enter m.current.userData s
    let calls := [⟨.enter, m.current.stateHash, next⟩]
    if next ≠ 0 then
      match m.findStateByHash next with
      | none => (⟨-einval, calls⟩, m, s)
      | some nextState => (⟨0, calls⟩, { m with current := nextState }, s)
    else { m with modeChangeN := false }.doWork s calls
  else m.doWork s []

/-! ## C -/

/-- `machine_state_t`; `none` is `NULL`. -/
structure MachineState (σ : Type) where
  enter : Option (σ → Int × σ)
  work : Option (σ → Int × σ)
  exit : Option (σ → Int × σ)

/-- `state_machine_t`. -/
structure StateMachineT (σ : Type) where
  states : List (MachineState σ)
  stateN : Int
  modeChangedN : Int

/-- `state_machine_init`. -/
def stateMachineInit (statesList : List (MachineState σ)) : StateMachineT σ :=
  { states := statesList, stateN := 0, modeChangedN := 0 }

/-- `&states[i]`; `none` is outside of the table. -/
def stateAt (states : List (MachineState σ)) (i : Int) : Option (MachineState σ) :=
  if i < 0 then none else states[i.toNat]?

/-- The exit transition of the state `current` with index `i`, on a result `next` of its
`enter` or `work`. -/
def StateMachineT.leave (m : StateMachineT σ) (current : MachineState σ) (i next : Int) (s : σ) :
    List (Call Int Int) × StateMachineT σ × σ :=
  let m := { m with modeChangedN := 0, stateN := next - 1 }
  match current.exit with
  | none => ([], m, s)
  | some exit =>
    let (next, s) := exit s
    (([⟨.exit, i, next⟩] : List (Call Int Int)),
      if next > 0 then { m with stateN := next - 1 } else m, s)

/-- The second block of `state_machine_do_step`. -/
def StateMachineT.doWork (m : StateMachineT σ) (current : MachineState σ) (s : σ) :
    List (Call Int Int) × StateMachineT σ × σ :=
  match current.work with
  | none => ([], m, s)
  | some work =>
    let i := m.stateN
    let (next, s) := work s
    if next > 0 then
      let (calls, m, s) := m.leave current i next s
      (⟨.work, i, next⟩ :: calls, m, s)
    else ([⟨.work, i, next⟩], m, s)

/-- `state_machine_do_step`. -/
def stateMachineDoStep (m : StateMachineT σ) (s : σ) :
    Option (List (Call Int Int) × StateMachineT σ × σ) := do
  let current ← stateAt m.states m.stateN
  match current.enter with
  | none => some (m.doWork current s)
  | some enter =>
    if m.modeChangedN = 0 then
      let i := m.stateN
      let (next, s) := enter s
      if next > 0 then
        let (calls, m, s) := m.leave current i next s
        some (⟨.enter, i, next⟩ :: calls, m, s)
      else
        let (calls, m, s) := { m with modeChangedN := 1 }.doWork current s
        some (⟨.enter, i, next⟩ :: calls, m, s)
    else some (m.doWork current s)

end MyLibraries.StateMachine
