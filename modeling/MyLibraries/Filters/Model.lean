import Mathlib.Algebra.Field.Defs
import Mathlib.Algebra.GroupWithZero.Nat
import Mathlib.Algebra.Order.Ring.Defs
import MyLibraries.Core.Within
import MyLibraries.Core.Selection

/-!
# Filters for samples

The filters are templates over a floating point type; here `T` is any field with an order,
so the arithmetic is exact. A division by zero faults where the divisor depends on the state
of the filter. `std::nth_element` and `std::max_element` are parameters.
-/

namespace MyLibraries.Filters

variable {T : Type} {windowSize : Nat}

/-! ## Kalman -/

structure KalmanFilter (T : Type) where
  processNoise : T
  measurementNoise : T
  estimationError : T
  lastEstimate : T

namespace KalmanFilter

variable [Field T] [LinearOrder T]

/-- `KalmanFilter(a_ProcessNoise, a_MeasurementNoise, a_EstimationError)`. -/
def new (processNoise measurementNoise estimationError : T) : KalmanFilter T :=
  { processNoise, measurementNoise, estimationError, lastEstimate := 0 }

/-- `estimationError += processNoise`. -/
def predict (f : KalmanFilter T) : KalmanFilter T :=
  { f with estimationError := f.estimationError + f.processNoise }

/-- The gain of the measurement update. -/
def kalmanGain (f : KalmanFilter T) : Option T :=
  Within.divide f.estimationError (f.estimationError + f.measurementNoise)

def update (f : KalmanFilter T) (measurement : T) : Option (T × KalmanFilter T) := do
  let f := f.predict
  let kalmanGain ← f.kalmanGain
  let lastEstimate := f.lastEstimate + kalmanGain * (measurement - f.lastEstimate)
  let estimationError := (1 - kalmanGain) * f.estimationError
  some (lastEstimate, { f with estimationError, lastEstimate })

end KalmanFilter

/-! ## Exponential moving average -/

structure ExponentialMovingAverage (T : Type) where
  alpha : T
  initialized : Bool
  last : T

namespace ExponentialMovingAverage

variable [Field T]

/-- `ExponentialMovingAverage(alpha)`. -/
def new (alpha : T := 1 / 10) : ExponentialMovingAverage T :=
  { alpha, initialized := false, last := 0 }

def update (f : ExponentialMovingAverage T) (value : T) : T × ExponentialMovingAverage T :=
  if !f.initialized then (value, { f with last := value, initialized := true })
  else
    let last := f.alpha * value + (1 - f.alpha) * f.last
    (last, { f with last })

def reset (f : ExponentialMovingAverage T) (v : T := 0) : ExponentialMovingAverage T :=
  { f with last := v, initialized := false }

end ExponentialMovingAverage

/-! ## Moving average -/

structure MovingAverageFilter (T : Type) (windowSize : Nat) where
  buffer : Vector T windowSize
  sum : T
  count : Nat
  index : Fin windowSize

/-- `(index + 1) % windowSize`. -/
def nextIndex (index : Fin windowSize) : Fin windowSize :=
  ⟨(index.val + 1) % windowSize, Nat.mod_lt _ (Nat.lt_of_le_of_lt (Nat.zero_le _) index.isLt)⟩

/-- `if (count < windowSize) ++count`. -/
def nextCount (windowSize count : Nat) : Nat := if count < windowSize then count + 1 else count

namespace MovingAverageFilter

variable [Field T]

/-- `MovingAverageFilter()`. -/
def new (T : Type) [Field T] (windowSize : Nat) [NeZero windowSize] :
    MovingAverageFilter T windowSize :=
  { buffer := Vector.replicate windowSize 0, sum := 0, count := 0, index := 0 }

def update (f : MovingAverageFilter T windowSize) (newValue : T) :
    T × MovingAverageFilter T windowSize :=
  let sum := f.sum - f.buffer.get f.index
  let buffer := f.buffer.set f.index newValue f.index.isLt
  let sum := sum + newValue
  let index := nextIndex f.index
  let count := nextCount windowSize f.count
  (sum / (count : T), { buffer, sum, count, index })

end MovingAverageFilter

/-! ## Median -/

/-- The algorithms of the standard library that the median filter calls:
`std::nth_element(first, first + n, last)` rearranges a range, `std::max_element` is the
value it points to. -/
structure Algorithms (T : Type) where
  nthElement : List T → Nat → List T
  maxElement : List T → T

structure MedianFilter (T : Type) (windowSize : Nat) where
  buffer : Vector T windowSize
  index : Fin windowSize
  count : Nat

namespace MedianFilter

variable [Field T]

/-- `MedianFilter()`. -/
def new (T : Type) [Field T] (windowSize : Nat) [NeZero windowSize] :
    MedianFilter T windowSize :=
  { buffer := Vector.replicate windowSize 0, index := 0, count := 0 }

def update (std : Algorithms T) (f : MedianFilter T windowSize) (value : T) :
    T × MedianFilter T windowSize :=
  let buffer := f.buffer.set f.index value f.index.isLt
  let index := nextIndex f.index
  let count := nextCount windowSize f.count
  let tmp := buffer.toList.take count
  let mid := count / 2
  let tmp := std.nthElement tmp mid
  let result :=
    if count % 2 = 1 then tmp.getD mid 0
    else
      let maxOfLower := std.maxElement (tmp.take mid)
      (maxOfLower + tmp.getD mid 0) / 2
  (result, { buffer, index, count })

def reset [NeZero windowSize] (_ : MedianFilter T windowSize) (v : T := 0) :
    MedianFilter T windowSize :=
  { buffer := Vector.replicate windowSize v, index := 0, count := 0 }

end MedianFilter

/-- What a median filter is to compute: the middle element of the sorted samples, or the
mean of the two middle elements. -/
def median [Field T] [LinearOrder T] (samples : List T) : T :=
  let s := Selection.sort samples
  let mid := samples.length / 2
  if samples.length % 2 = 1 then s.getD mid 0 else (s.getD (mid - 1) 0 + s.getD mid 0) / 2

/-! ## First-order filters -/

/-- `3.14159265358979323846`. -/
def pi (T : Type) [Field T] : T := 314159265358979323846 / 10 ^ 20

structure FirstOrderLowPass (T : Type) where
  cutoffHz : T
  last : T
  initialized : Bool

structure FirstOrderHighPass (T : Type) where
  cutoffHz : T
  lastY : T
  lastX : T
  initialized : Bool

/-- `1 / (2 * pi * cutoff_hz_)`. -/
def tau [Field T] (cutoffHz : T) : T := 1 / (2 * pi T * cutoffHz)

variable [Field T] [LinearOrder T]

namespace FirstOrderLowPass

/-- `FirstOrderLowPass(cutoff_hz, initial)`. -/
def new (cutoffHz : T := 1) (initial : T := 0) : FirstOrderLowPass T :=
  { cutoffHz, last := initial, initialized := false }

def update (f : FirstOrderLowPass T) (sample dt : T) : T × FirstOrderLowPass T :=
  if dt ≤ 0 then (f.last, f)
  else
    let tau := tau f.cutoffHz
    let alpha := dt / (tau + dt)
    if !f.initialized then (sample, { f with last := sample, initialized := true })
    else
      let last := f.last + alpha * (sample - f.last)
      (last, { f with last })

def reset (f : FirstOrderLowPass T) (v : T := 0) : FirstOrderLowPass T :=
  { f with last := v, initialized := false }

end FirstOrderLowPass

namespace FirstOrderHighPass

/-- `FirstOrderHighPass(cutoff_hz, initial)`. -/
def new (cutoffHz : T := 1) (initial : T := 0) : FirstOrderHighPass T :=
  { cutoffHz, lastY := initial, lastX := initial, initialized := false }

def update (f : FirstOrderHighPass T) (sample dt : T) : T × FirstOrderHighPass T :=
  if dt ≤ 0 then (f.lastY, f)
  else
    let tau := tau f.cutoffHz
    let alpha := tau / (tau + dt)
    let f := if !f.initialized then { f with lastX := sample, lastY := 0, initialized := true }
      else f
    let y := alpha * (f.lastY + sample - f.lastX)
    (y, { f with lastX := sample, lastY := y })

def reset (f : FirstOrderHighPass T) (v : T := 0) : FirstOrderHighPass T :=
  { f with lastX := v, lastY := v, initialized := false }

end FirstOrderHighPass

end MyLibraries.Filters
